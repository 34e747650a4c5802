import WitParser.Types
import WitParser.Text

/-! # Functions: item names, core export names and ABI choices

A function's name follows the component-model convention for its kind: `[method]r.f`,
`[async]f` and so on. The item name is read back by byte slicing; the core export name of a
function depends on the owning interface and on the mangling scheme.
-/

namespace WitParser

inductive FunctionKind where
  | freestanding
  | asyncFreestanding
  | method (id : TypeId)
  | asyncMethod (id : TypeId)
  | static (id : TypeId)
  | asyncStatic (id : TypeId)
  | constructor (id : TypeId)
deriving DecidableEq, Repr

def FunctionKind.resource : FunctionKind → Option TypeId
  | .freestanding | .asyncFreestanding => none
  | .method id | .static id | .constructor id | .asyncMethod id | .asyncStatic id => some id

/-- `Function`, without its docs and stability. -/
structure Function where
  name : String
  kind : FunctionKind
  params : List (String × WitType)
  result : Option WitType
deriving DecidableEq, Repr

/-- `Function::item_name`; `none` where Rust panics, on a slice off a character boundary or on
the `unwrap` of a missing `.`. -/
def Function.itemName (f : Function) : Option String :=
  match f.kind with
  | .freestanding => some f.name
  | .asyncFreestanding => sliceFrom f.name "[async]".utf8ByteSize
  | .method _ | .static _ | .asyncMethod _ | .asyncStatic _ =>
    (findChar f.name.data '.').bind fun dot => sliceFrom f.name (dot + 1)
  | .constructor _ => some "constructor"

def Function.parameterAndResultTypes (f : Function) : List WitType :=
  f.params.map Prod.snd ++ f.result.toList

inductive Mangling where
  | standard32
  | legacy
deriving DecidableEq, Repr

/-- `impl FromStr for Mangling`. -/
def Mangling.fromStr (s : String) : Except String Mangling :=
  if s = "legacy" then .ok .legacy
  else if s = "standard32" then .ok .standard32
  else .error ("unknown name mangling `" ++ s ++ "`, supported values are `legacy` or `standard32`")

/-- Matching is exact: the error quotes any other text. -/
example : Mangling.fromStr "Legacy" =
    .error "unknown name mangling `Legacy`, supported values are `legacy` or `standard32`" := rfl

def Function.coreExportName (f : Function) (interface : Option String) (mangling : Mangling) :
    String :=
  match interface, mangling with
  | some interface, .standard32 => "cm32p2|" ++ interface ++ "|" ++ f.name
  | some interface, .legacy => interface ++ "#" ++ f.name
  | none, .standard32 => "cm32p2||" ++ f.name
  | none, .legacy => f.name

def Function.standard32CoreExportName (f : Function) (interface : Option String) : String :=
  f.coreExportName interface .standard32

def Function.legacyCoreExportName (f : Function) (interface : Option String) : String :=
  f.coreExportName interface .legacy

inductive LiftLowerAbi where
  | sync
  | asyncCallback
  | asyncStackful
deriving DecidableEq, Repr

/-- `AbiVariant`, declared in `abi.rs`, which is not under src/; its variants are the ones
lib.rs names. -/
inductive AbiVariant where
  | guestImport
  | guestExport
  | guestImportAsync
  | guestExportAsync
  | guestExportAsyncStackful
deriving DecidableEq, Repr

def LiftLowerAbi.importPrefix : LiftLowerAbi → String
  | .sync => ""
  | .asyncCallback | .asyncStackful => "[async-lower]"

def LiftLowerAbi.importVariant : LiftLowerAbi → AbiVariant
  | .sync => .guestImport
  | .asyncCallback | .asyncStackful => .guestImportAsync

def LiftLowerAbi.exportPrefix : LiftLowerAbi → String
  | .sync => ""
  | .asyncCallback => "[async-lift]"
  | .asyncStackful => "[async-lift-stackful]"

def LiftLowerAbi.exportVariant : LiftLowerAbi → AbiVariant
  | .sync => .guestExport
  | .asyncCallback => .guestExportAsync
  | .asyncStackful => .guestExportAsyncStackful

/-- `ManglingAndAbi`: the standard mangling only pairs with the synchronous ABI. -/
inductive ManglingAndAbi where
  | standard32
  | legacy (abi : LiftLowerAbi)
deriving DecidableEq, Repr

def ManglingAndAbi.importVariant : ManglingAndAbi → AbiVariant
  | .standard32 => .guestImport
  | .legacy abi => abi.importVariant

def ManglingAndAbi.exportVariant : ManglingAndAbi → AbiVariant
  | .standard32 => .guestExport
  | .legacy abi => abi.exportVariant

def ManglingAndAbi.sync : ManglingAndAbi → ManglingAndAbi
  | .standard32 => .standard32
  | .legacy .sync => .legacy .sync
  | .legacy .asyncCallback | .legacy .asyncStackful => .legacy .sync

def ManglingAndAbi.isAsync : ManglingAndAbi → Bool
  | .standard32 | .legacy .sync => false
  | .legacy .asyncCallback | .legacy .asyncStackful => true

section ItemName

/-- The component-model name of a function of kind `kind` called `item`, on resource `resource`. -/
def conventionalName (kind : FunctionKind) (resource item : String) : String :=
  match kind with
  | .freestanding => item
  | .asyncFreestanding => "[async]" ++ item
  | .method _ => "[method]" ++ resource ++ "." ++ item
  | .asyncMethod _ => "[async method]" ++ resource ++ "." ++ item
  | .static _ => "[static]" ++ resource ++ "." ++ item
  | .asyncStatic _ => "[async static]" ++ resource ++ "." ++ item
  | .constructor _ => "[constructor]" ++ resource

/-- The item name the convention gives a kind: `constructor` for constructors. -/
def conventionalItem (kind : FunctionKind) (item : String) : String :=
  match kind with
  | .constructor _ => "constructor"
  | _ => item

/-- Slicing after the first `.` of `pre ++ resource ++ "." ++ item` returns `item`. -/
theorem slice_after_first_dot (pre resource item : String) (absent : '.' ∉ pre.data ++ resource.data) :
    (findChar (pre ++ resource ++ "." ++ item).data '.').bind
      (fun dot => sliceFrom (pre ++ resource ++ "." ++ item) (dot + 1)) = some item := by
  have data : (pre ++ resource ++ "." ++ item).data = (pre.data ++ resource.data) ++ '.' :: item.data := by
    simp only [String.data_append, List.append_assoc]
    rfl
  have offset : byteSize (pre.data ++ resource.data) + 1 = byteSize (pre ++ resource ++ ".").data := by
    simp only [String.data_append, byteSize_append]
    rfl
  rw [data, findChar_append_cons absent, Option.some_bind, offset, sliceFrom_append]

/-- Every name that follows the convention for its kind decodes back to its item name, without a
panic on the slice or on the search for the `.`. -/
theorem Function.itemName_conventionalName (kind : FunctionKind) (resource item : String)
    (params : List (String × WitType)) (result : Option WitType) (noDot : '.' ∉ resource.data) :
    Function.itemName ⟨conventionalName kind resource item, kind, params, result⟩ =
      some (conventionalItem kind item) := by
  have absent (pre : String) (dotless : '.' ∉ pre.data) : '.' ∉ pre.data ++ resource.data :=
    List.not_mem_append dotless noDot
  cases kind with
  | freestanding => rfl
  | asyncFreestanding =>
    simp only [Function.itemName, conventionalName, conventionalItem, utf8ByteSize_eq_byteSize]
    exact sliceFrom_append _ _
  | method => exact slice_after_first_dot "[method]" resource item (absent _ (by decide))
  | asyncMethod => exact slice_after_first_dot "[async method]" resource item (absent _ (by decide))
  | static => exact slice_after_first_dot "[static]" resource item (absent _ (by decide))
  | asyncStatic => exact slice_after_first_dot "[async static]" resource item (absent _ (by decide))
  | constructor => rfl

theorem pollable_block_itemName :
    '.' ∉ "pollable".data ∧
      Function.itemName ⟨conventionalName (.method 0) "pollable" "block", .method 0, [], none⟩ =
        some (conventionalItem (.method 0) "block") :=
  ⟨by decide, Function.itemName_conventionalName (.method 0) "pollable" "block" [] none (by decide)⟩


/-- Slicing after the first `.` returns what follows it. -/
private theorem afterFirstDot_of_split {name : String} {pre post : List Char} (absent : '.' ∉ pre)
    (split : name.data = pre ++ '.' :: post) :
    ((findChar name.data '.').bind fun dot => sliceFrom name (dot + 1)) = some ⟨post⟩ := by
  rw [split, findChar_append_cons absent, Option.some_bind, sliceFrom_eq_some_iff]
  exact ⟨pre ++ ['.'], by simp [split], by simp; rfl⟩

private theorem afterFirstDot_eq_some_iff (name item : String) :
    ((findChar name.data '.').bind fun dot => sliceFrom name (dot + 1)) = some item ↔
      ∃ pre, '.' ∉ pre ∧ name.data = pre ++ '.' :: item.data := by
  constructor
  · intro sliced
    by_cases mem : '.' ∈ name.data
    · obtain ⟨pre, post, split, absent⟩ := exists_first_split mem
      rw [afterFirstDot_of_split absent split, Option.some.injEq] at sliced
      subst sliced
      exact ⟨pre, absent, split⟩
    · rw [(findChar_eq_none_iff _ _).mpr mem] at sliced
      cases sliced
  · rintro ⟨pre, absent, split⟩
    exact afterFirstDot_of_split absent split

/-- What `item_name` returns for every function, whatever its name: the name of a freestanding
function; the name of an async one without its first seven bytes, whatever they are; the text
after the first `.` of a method's or a static function's name; `constructor`. Where nothing fits
it panics: on an async name shorter than seven bytes or whose seventh byte ends inside a
character, and on a method or static name without a `.`. -/
theorem Function.itemName_eq_some_iff (f : Function) (item : String) :
    f.itemName = some item ↔ match f.kind with
      | .freestanding => item = f.name
      | .asyncFreestanding => ∃ pre, f.name.data = pre ++ item.data ∧ byteSize pre = 7
      | .constructor _ => item = "constructor"
      | _ => ∃ pre, '.' ∉ pre ∧ f.name.data = pre ++ '.' :: item.data := by
  rcases f with ⟨name, kind, params, result⟩
  cases kind with
  | freestanding => exact ⟨fun same => (Option.some.inj same).symm, fun same => same ▸ rfl⟩
  | asyncFreestanding => exact sliceFrom_eq_some_iff name item 7
  | constructor => exact ⟨fun same => (Option.some.inj same).symm, fun same => same ▸ rfl⟩
  | method | asyncMethod | static | asyncStatic => exact afterFirstDot_eq_some_iff name item

/-- The async slice does not look at the seven bytes it drops. -/
example : Function.itemName ⟨"(sync) f", .asyncFreestanding, [], none⟩ = some "f" := rfl

/-- A method name without a `.` panics on the `unwrap`. -/
example : Function.itemName ⟨"[method]f", .method 0, [], none⟩ = none := rfl

end ItemName

section CoreExportName

/-- Neither `|` nor `#`, the separators of core export names, occurs in the name. -/
def IsPlainName (s : String) : Prop := '|' ∉ s.data ∧ '#' ∉ s.data

/-- An owning interface, when present, has a non-empty plain name. -/
def IsInterfaceName (interface : Option String) : Prop := ∀ s ∈ interface, s.data ≠ [] ∧ IsPlainName s

instance (s : String) : Decidable (IsPlainName s) := inferInstanceAs (Decidable (_ ∧ _))

instance (interface : Option String) : Decidable (IsInterfaceName interface) :=
  inferInstanceAs (Decidable (∀ s ∈ interface, _))

theorem Function.coreExportName_data (f : Function) (interface : Option String) (mangling : Mangling) :
    (f.coreExportName interface mangling).data =
      match interface, mangling with
      | some i, .standard32 => "cm32p2|".data ++ i.data ++ '|' :: f.name.data
      | some i, .legacy => i.data ++ '#' :: f.name.data
      | none, .standard32 => "cm32p2|".data ++ '|' :: f.name.data
      | none, .legacy => f.name.data := by
  cases interface <;> cases mangling <;> simp only [Function.coreExportName, String.data_append,
    List.append_assoc] <;> rfl

/-- A `|` marks the standard mangling. -/
theorem Function.bar_mem_coreExportName {f : Function} {interface : Option String}
    (plain : IsPlainName f.name) (named : IsInterfaceName interface) (mangling : Mangling) :
    '|' ∈ (f.coreExportName interface mangling).data ↔ mangling = .standard32 := by
  rw [Function.coreExportName_data]
  cases interface <;> cases mangling <;> simp_all [IsInterfaceName, IsPlainName]

/-- A `#` marks the legacy mangling with an interface. -/
theorem Function.hash_mem_coreExportName {f : Function} {interface : Option String}
    (plain : IsPlainName f.name) (named : IsInterfaceName interface) (mangling : Mangling) :
    '#' ∈ (f.coreExportName interface mangling).data ↔
      mangling = .legacy ∧ interface.isSome = true := by
  rw [Function.coreExportName_data]
  cases interface <;> cases mangling <;> simp_all [IsInterfaceName, IsPlainName]

/-- Without an interface the standard name has `||` where a name with an interface has the
interface's first character, which is not a `|`. -/
private theorem standard32_none_ne_some {f g : Function} {J : String}
    (named : IsInterfaceName (some J)) :
    f.coreExportName none .standard32 ≠ g.coreExportName (some J) .standard32 := fun equal => by
  obtain ⟨c, rest, split⟩ := List.exists_cons_of_ne_nil (named J rfl).1
  have data := congrArg String.data equal
  simp only [Function.coreExportName_data, split, List.append_assoc] at data
  obtain ⟨rfl, -⟩ := List.cons.inj (List.append_cancel_left data)
  exact absurd (split ▸ List.mem_cons_self _ _) (named J rfl).2.1

/-- Distinct exported functions never receive the same core export name: the name determines the
function name, the owning interface and the mangling. -/
theorem Function.coreExportName_injective (f g : Function) (i j : Option String) (m n : Mangling)
    (plainF : IsPlainName f.name) (plainG : IsPlainName g.name) (namedI : IsInterfaceName i)
    (namedJ : IsInterfaceName j) (equal : f.coreExportName i m = g.coreExportName j n) :
    f.name = g.name ∧ i = j ∧ m = n := by
  have bar := (Function.bar_mem_coreExportName plainF namedI m).symm.trans
    (equal ▸ Function.bar_mem_coreExportName plainG namedJ n)
  have hash := (Function.hash_mem_coreExportName plainF namedI m).symm.trans
    (equal ▸ Function.hash_mem_coreExportName plainG namedJ n)
  have data := congrArg String.data equal
  cases m <;> cases n <;> simp at bar
  · cases i with
    | none =>
      cases j with
      | none =>
        simp only [Function.coreExportName_data, List.append_cancel_left_eq, List.cons.injEq] at data
        exact ⟨String.ext data.2, rfl, rfl⟩
      | some J => exact absurd equal (standard32_none_ne_some namedJ)
    | some I =>
      cases j with
      | none => exact absurd equal.symm (standard32_none_ne_some namedI)
      | some J =>
        simp only [Function.coreExportName_data, List.append_assoc,
          List.append_cancel_left_eq] at data
        obtain ⟨interfaces, names⟩ := append_cons_inj_of_not_mem (namedI I rfl).2.1
          (namedJ J rfl).2.1 data
        exact ⟨String.ext names, congrArg some (String.ext interfaces), rfl⟩
  · cases i <;> cases j <;> simp at hash <;> simp only [Function.coreExportName_data] at data
    · exact ⟨String.ext data, rfl, rfl⟩
    · rename_i I J
      obtain ⟨interfaces, names⟩ := append_cons_inj_of_not_mem (namedI I rfl).2.2
        (namedJ J rfl).2.2 data
      exact ⟨String.ext names, congrArg some (String.ext interfaces), rfl⟩

theorem block_coreExportName_injective :
    IsPlainName "block" ∧ IsInterfaceName (some "wasi:io/poll") ∧
      (⟨"block", .freestanding, [], none⟩ : Function).coreExportName (some "wasi:io/poll")
        .standard32 = "cm32p2|wasi:io/poll|block" ∧
      ("block" = "block" ∧ some "wasi:io/poll" = some "wasi:io/poll" ∧
        Mangling.standard32 = .standard32) :=
  have plain : IsPlainName "block" := by decide
  have named : IsInterfaceName (some "wasi:io/poll") := by decide
  ⟨plain, named, rfl, Function.coreExportName_injective ⟨"block", .freestanding, [], none⟩
    ⟨"block", .freestanding, [], none⟩ (some "wasi:io/poll") (some "wasi:io/poll") .standard32
    .standard32 plain plain named named rfl⟩

end CoreExportName

end WitParser
