import WitParser.ExceptFold

/-! # Loading a package from a directory

`UnresolvedPackageGroup::parse_dir` pushes into one source map every entry of a directory that is
not a directory, following symlinks, and whose name ends in `.wit`, in the order the directory
lists them, and then parses the map. The file system is an input here: the listing, and for each
entry what `file_type`, `path.is_dir` and `file_name` answer. Reading a pushed file and parsing the
map belong to the source map of the syntax crate and are parameters.

The loop asks the entry's own type first and follows a symlink only when the entry is one. On
every file system where an entry that is not a symlink is a directory exactly when its type says
so, this selects the entries whose target is not a directory, and no other file is read: a
directory's other files, readable or not, never change the result.
-/

namespace WitParser

/-- What `DirEntry::file_type` answers, without following symlinks: the kinds exclude each other. -/
inductive FileKind where
  | dir
  | symlink
  | other
deriving DecidableEq, Repr

/-- An error of the loader: an I/O error, or an error under the context it was given. -/
inductive LoadError where
  | io (message : String)
  | context (context : String) (source : LoadError)
deriving DecidableEq, Repr

/-- A directory entry with what the loop asks about it: `entry.path()`, `entry.file_type()`, which
can fail, `path.is_dir()`, which follows symlinks, and `path.file_name().and_then(|s| s.to_str())`,
none for a name that is not UTF-8. -/
structure DirEntry where
  path : String
  fileType : Except String FileKind
  isDir : Bool
  fileName : Option String

/-- `str::ends_with`: the suffix is valid UTF-8, so a byte suffix is a character suffix. -/
def endsWith (s suffix : String) : Bool := suffix.data.isSuffixOf s.data

/-- `format!("failed to read directory {path:?}")`. -/
def readDirectoryContext (dir : String) : String := "failed to read directory \"" ++ dir ++ "\""

/-- `with_context`: an I/O error under the given context. -/
def withContext {α : Type} (context : String) (result : Except String α) : Except LoadError α :=
  result.mapError fun message => .context context (.io message)

@[simp] theorem withContext_ok {α : Type} (context : String) (a : α) :
    withContext context (.ok a) = .ok a := rfl

@[simp] theorem withContext_error {α : Type} (context message : String) :
    (withContext context (.error message) : Except LoadError α) = .error (.context context (.io message)) := rfl

/-- One turn of the loop of `parse_dir`, over the sources pushed so far: skip the entry, or push
the file it names. -/
def parseDirEntry (dir : String) (readFile : String → Except LoadError String)
    (sources : List (String × String)) (entry : Except String DirEntry) :
    Except LoadError (List (String × String)) := do
  let entry ← withContext (readDirectoryContext dir) entry
  let ty ← withContext (readDirectoryContext dir) entry.fileType
  if ty = .dir then
    return sources
  if ty = .symlink then
    if entry.isDir then
      return sources
  match entry.fileName with
  | none => return sources
  | some filename =>
    if !endsWith filename ".wit" then
      return sources
    let contents ← readFile entry.path
    return sources ++ [(entry.path, contents)]

/-- `UnresolvedPackageGroup::parse_dir`: `readFile` is the read of `SourceMap::push_file` and
`parse` is `SourceMap::parse`. -/
def parseDir {α : Type} (dir : String) (readDir : Except String (List (Except String DirEntry)))
    (readFile : String → Except LoadError String) (parse : List (String × String) → Except LoadError α) :
    Except LoadError α := do
  let entries ← withContext (readDirectoryContext dir) readDir
  let sources ← entries.foldlM (parseDirEntry dir readFile) []
  parse sources

/-- The file system answers consistently: an entry that is not a symlink is a directory exactly
when its own type says so. -/
def DirEntry.consistent (entry : DirEntry) : Bool :=
  match entry.fileType with
  | .ok .dir => entry.isDir
  | .ok .other => !entry.isDir
  | _ => true

/-- A file the loader is for: its target is not a directory and its name ends in `.wit`. -/
def DirEntry.isWitFile (entry : DirEntry) : Bool :=
  !entry.isDir && entry.fileName.any fun name => endsWith name ".wit"

/-- What the loader is for: the contents of every wit file, in the order the directory lists them. -/
def witSources (readFile : String → Except LoadError String) (entries : List DirEntry) :
    Except LoadError (List (String × String)) :=
  (entries.filter DirEntry.isWitFile).mapM fun entry => (entry.path, ·) <$> readFile entry.path

section Loop

variable {dir : String} {readFile : String → Except LoadError String}

/-- On a consistent entry whose type can be read, one turn reads and pushes exactly a wit file. -/
theorem parseDirEntry_ok {entry : DirEntry} (consistent : entry.consistent = true) {kind : FileKind}
    (typed : entry.fileType = .ok kind) (sources : List (String × String)) :
    parseDirEntry dir readFile sources (.ok entry) =
      if entry.isWitFile then (fun contents => sources ++ [(entry.path, contents)]) <$> readFile entry.path
      else .ok sources := by
  rcases entry with ⟨path, fileType, isDir, fileName⟩
  subst typed
  cases kind <;> cases isDir <;> (try simp [DirEntry.consistent] at consistent) <;>
    rcases fileName with _ | name <;>
    simp only [parseDirEntry, withContext_ok, except_ok_bind, DirEntry.isWitFile, Option.any_some] <;>
    (try cases endsWith name ".wit") <;> rfl

theorem witSources_cons (entry : DirEntry) (entries : List DirEntry) :
    witSources readFile (entry :: entries) =
      if entry.isWitFile then do
        let source ← (entry.path, ·) <$> readFile entry.path
        let rest ← witSources readFile entries
        pure (source :: rest)
      else witSources readFile entries := by
  by_cases wit : entry.isWitFile
  · simp only [witSources, List.filter_cons, wit, if_true, List.mapM_cons]
  · simp only [witSources, List.filter_cons, wit]; rfl

private theorem exists_of_isOk {ε α : Type} {result : Except ε α} (ok : result.isOk = true) :
    ∃ a, result = .ok a := by
  cases result with
  | error => cases ok
  | ok a => exact ⟨a, rfl⟩

/-- Over a consistent listing whose entries and their types can be read, the loop pushes the
contents of the wit files after what it pushed before, in order, and stops at the first it
cannot read. -/
theorem foldlM_parseDirEntry (entries : List DirEntry)
    (consistent : ∀ entry ∈ entries, entry.consistent = true)
    (typed : ∀ entry ∈ entries, entry.fileType.isOk = true) (sources : List (String × String)) :
    (entries.map .ok).foldlM (parseDirEntry dir readFile) sources =
      (sources ++ ·) <$> witSources readFile entries := by
  induction entries generalizing sources with
  | nil =>
    simp only [witSources, List.filter_nil, List.mapM_nil, List.map_nil, List.foldlM_nil, map_pure,
      List.append_nil]
  | cons entry entries ih =>
    obtain ⟨kind, typed'⟩ := exists_of_isOk (typed entry (List.mem_cons_self entry entries))
    have rest := ih (fun e mem => consistent e (List.mem_cons_of_mem entry mem))
      (fun e mem => typed e (List.mem_cons_of_mem entry mem))
    rw [List.map_cons, List.foldlM_cons, parseDirEntry_ok (consistent entry (List.mem_cons_self entry entries))
      typed', witSources_cons]
    by_cases wit : entry.isWitFile
    · simp only [wit, if_true]
      cases readFile entry.path with
      | error e => rfl
      | ok contents =>
        simp only [Except.map_ok, except_ok_bind, rest]
        cases witSources readFile entries <;> simp
    · simp only [wit, if_false, Bool.false_eq_true, except_pure, except_ok_bind, rest]

private theorem parseDirEntry_congr {readFile' : String → Except LoadError String}
    (entry : Except String DirEntry)
    (agree : ∀ e, entry = .ok e → e.consistent = true ∧ (e.isWitFile = true → readFile e.path = readFile' e.path))
    (sources : List (String × String)) :
    parseDirEntry dir readFile sources entry = parseDirEntry dir readFile' sources entry := by
  rcases entry with message | entry
  · rfl
  · obtain ⟨consistent, same⟩ := agree entry rfl
    cases typed : entry.fileType with
    | error message => simp [parseDirEntry, typed]
    | ok kind =>
      rw [parseDirEntry_ok consistent typed, parseDirEntry_ok consistent typed]
      split
      · next wit => rw [same wit]
      · rfl

end Loop

/-- On every consistent listing whose entries and their types can be read, the load parses the
contents of exactly the wit files, in the order the directory lists them: no directory, reached
through a symlink or not, and no file of another name is read, and a wit file that cannot be read
fails the load. -/
theorem parseDir_eq_witSources {α : Type} (dir : String) (entries : List DirEntry)
    (readFile : String → Except LoadError String) (parse : List (String × String) → Except LoadError α)
    (consistent : ∀ entry ∈ entries, entry.consistent = true)
    (typed : ∀ entry ∈ entries, entry.fileType.isOk = true) :
    parseDir dir (.ok (entries.map .ok)) readFile parse = witSources readFile entries >>= parse := by
  rw [parseDir, withContext_ok, except_ok_bind, foldlM_parseDirEntry entries consistent typed]
  cases witSources readFile entries <;> rfl

/-- A listing with an entry of each kind the loop tells apart. -/
def testEntries : List DirEntry :=
  [⟨"wit/a.wit", .ok .other, false, some "a.wit"⟩, ⟨"wit/b.wit", .ok .dir, true, some "b.wit"⟩,
    ⟨"wit/c.wit", .ok .symlink, true, some "c.wit"⟩, ⟨"wit/d.wit", .ok .symlink, false, some "d.wit"⟩,
    ⟨"wit/notes.md", .ok .other, false, some "notes.md"⟩, ⟨"wit/raw", .ok .other, false, none⟩]

theorem testEntries_parseDir_eq_witSources :
    (∀ entry ∈ testEntries, entry.consistent = true) ∧ (∀ entry ∈ testEntries, entry.fileType.isOk = true) ∧
      parseDir "wit" (.ok (testEntries.map .ok)) (fun path => .ok path) (fun sources => .ok sources) =
        (witSources (fun path => .ok path) testEntries >>= fun sources => .ok sources :
          Except LoadError (List (String × String))) :=
  have consistent : ∀ entry ∈ testEntries, entry.consistent = true := by decide
  have typed : ∀ entry ∈ testEntries, entry.fileType.isOk = true := by decide
  ⟨consistent, typed, parseDir_eq_witSources "wit" testEntries _ _ consistent typed⟩

/-- The file and the symlink to a file are read; the directory, the symlink to one, the other
name and the entry without a UTF-8 name are not. -/
example : (testEntries.filter DirEntry.isWitFile).map DirEntry.path = ["wit/a.wit", "wit/d.wit"] := rfl

/-- Whatever the directory holds, files that are not wit files are never read: a load reads only
entries whose target is not a directory and whose name ends in `.wit`, so no other file, readable
or not, changes its result, failures to read an entry or its type included. -/
theorem parseDir_congr_readFile {α : Type} (dir : String) (entries : List (Except String DirEntry))
    (readFile readFile' : String → Except LoadError String) (parse : List (String × String) → Except LoadError α)
    (consistent : ∀ entry, .ok entry ∈ entries → entry.consistent = true)
    (agree : ∀ entry, .ok entry ∈ entries → entry.isWitFile = true → readFile entry.path = readFile' entry.path) :
    parseDir dir (.ok entries) readFile parse = parseDir dir (.ok entries) readFile' parse := by
  simp only [parseDir, withContext_ok, except_ok_bind]
  rw [foldlM_congr_mem fun entry mem sources => parseDirEntry_congr entry
    (fun e ok => ⟨consistent e (ok ▸ mem), agree e (ok ▸ mem)⟩) sources]

def testListing : List (Except String DirEntry) := testEntries.map .ok

def deniedNotes (path : String) : Except LoadError String :=
  if path = "wit/notes.md" then .error (.io "denied") else .ok path

theorem testEntries_parseDir_congr_readFile :
    (∀ entry : DirEntry, .ok entry ∈ testListing → entry.consistent = true) ∧
      (∀ entry : DirEntry, .ok entry ∈ testListing → entry.isWitFile = true →
        .ok entry.path = deniedNotes entry.path) ∧
      parseDir "wit" (.ok testListing) .ok (fun sources => .ok sources) =
        parseDir "wit" (.ok testListing) deniedNotes (fun sources => .ok sources) :=
  have listed : ∀ entry : DirEntry, .ok entry ∈ testListing → entry ∈ testEntries := by
    simp only [testListing, List.mem_map, Except.ok.injEq, exists_eq_right, imp_self, implies_true]
  have consistent : ∀ entry : DirEntry, .ok entry ∈ testListing → entry.consistent = true :=
    fun entry mem => (by decide : ∀ entry ∈ testEntries, entry.consistent = true) entry (listed entry mem)
  have readable : ∀ entry ∈ testEntries, entry.isWitFile = true → entry.path ≠ "wit/notes.md" := by decide
  have agree : ∀ entry : DirEntry, .ok entry ∈ testListing → entry.isWitFile = true →
      .ok entry.path = deniedNotes entry.path :=
    fun entry mem wit => (if_neg (readable entry (listed entry mem) wit)).symm
  ⟨consistent, agree, parseDir_congr_readFile "wit" testListing .ok deniedNotes _ consistent agree⟩

end WitParser
