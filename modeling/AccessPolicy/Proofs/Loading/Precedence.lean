import AccessPolicy.Loading
import AccessPolicy.Proofs.Loading.Documents
import AccessPolicy.Proofs.Text.ByteOrder
import Mathlib

/-! # The precedence of policy sources

The sources of a load are layers of definitions: the rules there are, the policy file,
and the files of the directories, each directory in the byte order of its names. What a
load leaves under a name is the last definition in these layers. Only a policy file can
make a load fail; a file of a directory that holds no document is counted and passed
over, and the layers around it are entered all the same.
-/

namespace AccessPolicy

namespace Files

/-- The document that a path leads to: a file that holds a JSON object. -/
def document? (files : Files) (path : String) : Option Document :=
  match files path with
  | .ok (.file content) =>
    match Json.read content with
    | .ok (.object members) => some members
    | _ => none
  | _ => none

/-- Why a path leads to no document. -/
inductive LacksDocument (files : Files) (path : String) : PolicyError → Prop where
  | unreadable {fault : FileFault} :
      files.read path = .error fault → LacksDocument files path (.unreadableFile path fault)
  | malformed {content : List UInt8} {error : Json.SyntaxError} :
      files.read path = .ok content → Json.read content = .error error →
        LacksDocument files path (.invalidDocument (some path) (.malformed error))
  | notObject {content : List UInt8} {value : Json} :
      files.read path = .ok content → Json.read content = .ok value → value.kind ≠ .object →
        LacksDocument files path (.invalidDocument (some path) .notObject)

/-- The names of the files in a directory, of which there are none where no directory
is. -/
def fileNames (files : Files) (directory : String) : List String :=
  match files directory with
  | .ok (.directory names) =>
    ((Table.orderedEntries (names.map (·, ()))).map (·.1)).filter fun name =>
      files.isFile (join directory name)
  | _ => []

/-- The paths of the files in a directory, in the order of their names. -/
def pathsIn (files : Files) (directory : String) : List String :=
  (files.fileNames directory).map (join directory)

/-- Names are those of the files in a directory, in the order of their bytes. -/
structure Lists (files : Files) (directory : String) (names : List String) : Prop where
  ascending : names.Pairwise fun first second => Text.utf8 first < Text.utf8 second
  mem_iff : ∀ name, name ∈ names ↔
    ∃ entries, files directory = .ok (.directory entries) ∧ name ∈ entries ∧
      files.isFile (join directory name) = true

variable (files : Files)

theorem lists_fileNames (directory : String) :
    files.Lists directory (files.fileNames directory) := by
  unfold fileNames
  split
  · rename_i names found
    constructor
    · apply List.Pairwise.filter
      rw [List.pairwise_map]
      exact (Table.pairwise_orderedEntries _).imp Text.utf8_lt_utf8
    · intro name
      rw [List.mem_filter, Table.mem_keys_orderedEntries, List.map_map, found]
      simp
  · rename_i elsewhere
    refine ⟨List.Pairwise.nil, fun name => ⟨fun member => ?_, ?_⟩⟩
    · exact absurd member List.not_mem_nil
    · rintro ⟨entries, found, _⟩
      exact absurd found (elsewhere entries)

/-- The files of a directory are visited in the order of their names. -/
theorem filesIn?_cases (directory : String) :
    files.filesIn? directory = some (files.pathsIn directory) ∨
      files.filesIn? directory = none ∧ files.pathsIn directory = [] := by
  rw [filesIn?, pathsIn, fileNames]
  rcases files directory with fault | ⟨content⟩ | names
  · exact .inr ⟨rfl, rfl⟩
  · exact .inr ⟨rfl, rfl⟩
  · exact .inl (congrArg some (List.filter_map ..))

variable {files}

theorem pairwise_of_document? {path : String} {document : Document}
    (found : files.document? path = some document) : document.Pairwise (·.1 < ·.1) := by
  unfold document? at found
  split at found
  · split at found
    · rename_i members read
      cases found
      exact Json.pairwise_of_read read
    · cases found
  · cases found

end Files

/-- How many files hold no document. -/
def Files.countLacking (files : Files) (paths : List String) : Nat :=
  paths.countP fun path => (files.document? path).isNone

namespace Load

variable {files : Files} {path : String} {before between after : Load}
  {documents others : List Document} {passed further : Nat}

theorem documentAt_eq_ok_iff {document : Document} :
    documentAt files path = .ok document ↔ files.document? path = some document := by
  unfold documentAt Files.read Files.document?
  rcases files path with fault | ⟨content⟩ | names
  · simp
  · simp only [Document.read]
    rcases Json.read content with error | value
    · simp
    · cases value <;> simp [Document.ofJson]
  · simp

theorem documentAt_eq_error_iff {error : PolicyError} :
    documentAt files path = .error error ↔ files.LacksDocument path error := by
  unfold documentAt
  constructor
  · intro failed
    split at failed
    · rename_i fault unread
      cases failed
      exact .unreadable unread
    · rename_i content found
      unfold Document.read at failed
      rcases parsed : Json.read content with syntaxError | value
      · rw [parsed] at failed
        cases failed
        exact .malformed found parsed
      · rw [parsed] at failed
        cases value <;> cases failed
        all_goals exact .notObject found parsed (by simp [Json.kind])
  · rintro (unread | ⟨found, parsed⟩ | ⟨found, parsed, other⟩)
    · rw [unread]
    · rw [found]
      simp only [Document.read, parsed]
    · rename_i value
      rw [found]
      simp only [Document.read, parsed]
      cases value <;> first | rfl | exact absurd rfl other

/-- A load goes on through some files: it enters their documents and passes over the
files without one. -/
structure Continues (before after : Load) (documents : List Document) (passed : Nat) : Prop where
  store : after.store = documents.foldl Store.enterDocument before.store
  files : after.files = before.files + documents.length
  skipped : after.skipped = before.skipped + passed

theorem Continues.refl (load : Load) : Continues load load [] 0 :=
  ⟨rfl, rfl, rfl⟩

theorem Continues.trans (first : Continues before between documents passed)
    (second : Continues between after others further) :
    Continues before after (documents ++ others) (passed + further) where
  store := by rw [second.store, first.store, List.foldl_append]
  files := by rw [second.files, first.files, List.length_append, Nat.add_assoc]
  skipped := by rw [second.skipped, first.skipped, Nat.add_assoc]

/-- A file of a directory is entered if it holds a document, and otherwise counted. -/
theorem continues_enterOrSkip (files : Files) (load : Load) (path : String) :
    Continues load (load.enterOrSkip files path) (files.document? path).toList
      (if (files.document? path).isNone then 1 else 0) := by
  unfold enterOrSkip enterAt
  cases found : files.document? path with
  | some document =>
      rw [documentAt_eq_ok_iff.mpr found]
      exact ⟨rfl, rfl, rfl⟩
  | none =>
      cases attempt : documentAt files path with
      | ok document =>
          rw [documentAt_eq_ok_iff.mp attempt] at found
          contradiction
      | error error => exact ⟨rfl, rfl, rfl⟩

theorem continues_enterFiles (files : Files) (paths : List String) (load : Load) :
    Continues load (paths.foldl (enterOrSkip files) load) (paths.filterMap files.document?)
      (files.countLacking paths) := by
  induction paths generalizing load with
  | nil => exact .refl load
  | cons path rest ih =>
      have whole := (continues_enterOrSkip files load path).trans (ih (load.enterOrSkip files path))
      rw [List.foldl_cons, List.filterMap_cons, Files.countLacking, List.countP_cons, Nat.add_comm]
      cases found : files.document? path with
      | none =>
          rw [found] at whole
          exact whole
      | some document =>
          rw [found] at whole
          exact whole

theorem continues_enterDirectory (files : Files) (load : Load) (directory : String) :
    Continues load (load.enterDirectory files directory)
      ((files.pathsIn directory).filterMap files.document?)
      (files.countLacking (files.pathsIn directory)) := by
  rw [enterDirectory]
  rcases files.filesIn?_cases directory with listed | ⟨missing, noPaths⟩
  · rw [listed]
    exact continues_enterFiles files (files.pathsIn directory) load
  · rw [missing, noPaths]
    exact ⟨rfl, rfl, rfl⟩

theorem continues_enterDirectories (files : Files) (directories : List String) (load : Load) :
    Continues load (directories.foldl (enterDirectory files) load)
      ((directories.flatMap files.pathsIn).filterMap files.document?)
      (files.countLacking (directories.flatMap files.pathsIn)) := by
  induction directories generalizing load with
  | nil => exact .refl load
  | cons directory rest ih =>
      rw [List.foldl_cons, List.flatMap_cons, List.filterMap_append, Files.countLacking,
        List.countP_append]
      exact (continues_enterDirectory files load directory).trans (ih _)

end Load

/-- A part of a policy that defines names. -/
inductive Layer where
  | stored (store : Store)
  | written (document : Document)

/-- The check that a layer defines a name as. -/
def Layer.definition? : Layer → String → Option Check
  | .stored store, name => store.get? name
  | .written document, name => document.definition? name

namespace Sources

variable {files : Files} {sources : Sources} {base : Option Store}

/-- The paths of the files in the directories of policy sources. -/
def directoryPaths (sources : Sources) (files : Files) : List String :=
  sources.directories.flatMap files.pathsIn

/-- The documents of policy sources: that of the policy file, if there is to be one, and
those in the directories. -/
def documents (sources : Sources) (files : Files) : List Document :=
  (if sources.file = "" then [] else (files.document? sources.file).toList) ++
    (sources.directoryPaths files).filterMap files.document?

/-- What defines names in a load, later ones taking precedence. -/
def layers (sources : Sources) (files : Files) (base : Option Store) : List Layer :=
  base.toList.map .stored ++ (sources.documents files).map .written

theorem pairwise_of_mem_documents {document : Document}
    (member : document ∈ sources.documents files) : document.Pairwise (·.1 < ·.1) := by
  rcases List.mem_append.mp member with first | later
  · split at first
    · contradiction
    · exact Files.pairwise_of_document? (Option.mem_toList.mp first)
  · obtain ⟨path, _, found⟩ := List.mem_filterMap.mp later
    exact Files.pairwise_of_document? found

/-- The last definition in the documents, or else the one in the base. -/
theorem getLast?_layers (name : String) :
    ((sources.layers files base).filterMap (·.definition? name)).getLast? =
      ((sources.documents files).filterMap (·.definition? name)).getLast?.or
        (base.bind (·.get? name)) := by
  rw [layers, List.filterMap_append, List.getLast?_append, List.filterMap_map, List.filterMap_map]
  congr 1
  cases base with
  | none => rfl
  | some store =>
      change ([store].filterMap (·.get? name)).getLast? = store.get? name
      cases found : store.get? name <;> simp [found]

/-- A base without rules defines nothing, and none is the same as such a base. -/
theorem get?_base (base : Option Store) (name : String) :
    (Store.base base).get? name = base.bind (·.get? name) := by
  cases base with
  | none => rfl
  | some store =>
      by_cases noRules : store.isEmpty = true
      · have nothing : store.rules.entries = [] := List.isEmpty_iff.mp noRules
        rw [Store.base, if_pos noRules]
        change none = store.rules.entries.lookup name
        rw [nothing]
        rfl
      · rw [Store.base, if_neg noRules]
        rfl

theorem load_eq (sources : Sources) (files : Files) (base : Option Store) :
    sources.load files base =
      ((Load.ofStore (.base base)).enterPolicyFile files sources.file).map fun load =>
        (sources.directories.foldl (Load.enterDirectory files) load).finish sources.defaultRule :=
  rfl

/-- The policy file is entered if there is to be one and it holds a document. -/
theorem continues_of_enterPolicyFile {path : String} {before after : Load}
    (entered : before.enterPolicyFile files path = .ok after) :
    before.Continues after (if path = "" then [] else (files.document? path).toList) 0 := by
  unfold Load.enterPolicyFile at entered
  split at entered
  · rename_i unset
    cases entered
    rw [if_pos unset]
    exact .refl before
  · rename_i given
    rw [if_neg given]
    unfold Load.enterAt at entered
    cases attempt : Load.documentAt files path with
    | error error => rw [attempt] at entered; cases entered
    | ok document =>
        rw [attempt] at entered
        cases entered
        rw [Load.documentAt_eq_ok_iff.mp attempt]
        exact ⟨rfl, rfl, rfl⟩

theorem load_eq_error_iff {error : PolicyError} :
    sources.load files base = .error error ↔
      sources.file ≠ "" ∧ files.LacksDocument sources.file error := by
  rw [← Load.documentAt_eq_error_iff, load_eq, Load.enterPolicyFile]
  by_cases unset : sources.file = ""
  · simp [unset, Except.map]
  · rw [if_neg unset, Load.enterAt]
    cases Load.documentAt files sources.file <;> simp [unset, Except.map]

/-- A load that succeeds has entered all documents, and passed over the other files. -/
theorem exists_continues_of_load {load : Load} (loaded : sources.load files base = .ok load) :
    ∃ last, load = last.finish sources.defaultRule ∧
      (Load.ofStore (.base base)).Continues last (sources.documents files)
        (files.countLacking (sources.directoryPaths files)) := by
  rw [load_eq] at loaded
  cases entered : (Load.ofStore (.base base)).enterPolicyFile files sources.file with
  | error error => rw [entered] at loaded; cases loaded
  | ok first =>
      rw [entered] at loaded
      cases loaded
      have whole := (continues_of_enterPolicyFile entered).trans
        (Load.continues_enterDirectories files sources.directories first)
      rw [Nat.zero_add] at whole
      exact ⟨_, rfl, whole⟩

/-- **The last definition counts.** A load fails exactly if there is to be a policy file
and the file holds no document, for the reason it has. Otherwise it goes through layers:
the base, the policy file, then directory by directory the files that hold a document in
the byte order of their names. A name is left with its last definition in the layers and
undefined without one. The default rule is the given one, and the summary counts the
documents, the files of directories without one, and the rules. -/
theorem load_by_precedence (sources : Sources) (files : Files) (base : Option Store) :
    (∀ directory, files.Lists directory (files.fileNames directory)) ∧
    (∀ error, sources.load files base = .error error ↔
      sources.file ≠ "" ∧ files.LacksDocument sources.file error) ∧
    ∀ load, sources.load files base = .ok load →
      (∀ name, load.store.get? name =
        ((sources.layers files base).filterMap (·.definition? name)).getLast?) ∧
      load.store.defaultRule = sources.defaultRule ∧
      load.summary = ⟨(sources.documents files).length,
        files.countLacking (sources.directoryPaths files), load.store.size⟩ := by
  refine ⟨files.lists_fileNames, fun error => load_eq_error_iff, fun load loaded => ?_⟩
  obtain ⟨last, rfl, whole⟩ := exists_continues_of_load loaded
  refine ⟨fun name => ?_, rfl, ?_⟩
  · have ascending : ∀ document ∈ sources.documents files, document.Pairwise (·.1 < ·.1) :=
      fun _ => pairwise_of_mem_documents
    calc (last.finish sources.defaultRule).store.get? name
        = last.store.get? name := rfl
      _ = ((sources.documents files).foldl Store.enterDocument (.base base)).get? name :=
          congrArg (fun store : Store => store.get? name) whole.store
      _ = ((sources.documents files).filterMap (·.definition? name)).getLast?.or
            ((Store.base base).get? name) := Store.get?_enterDocuments ascending ..
      _ = ((sources.layers files base).filterMap (·.definition? name)).getLast? := by
          rw [getLast?_layers, get?_base]
  · have counted := whole.files
    have skipped := whole.skipped
    rw [Load.ofStore, Nat.zero_add] at counted skipped
    rw [Load.summary, ← counted, ← skipped]
    rfl

/-! ## A directory over a policy file -/

/-- A policy file, and a directory with two documents, a list and another directory. -/
def layeredFiles : Files := fun path =>
  match path with
  | "policy.json" => .ok (.file (Text.utf8 "\x7b\"edit\":\"!\",\"view\":\"!\"\x7d"))
  | "policy.d" => .ok (.directory ["b", "nested", "c", "a"])
  | "policy.d/a" => .ok (.file (Text.utf8 "\x7b\"edit\":\"@\"\x7d"))
  | "policy.d/b" => .ok (.file (Text.utf8 "[\"edit\"]"))
  | "policy.d/c" => .ok (.file (Text.utf8 "\x7b\"edit\":\x7b\x7d,\"list\":[]\x7d"))
  | "policy.d/nested" => .ok (.directory [])
  | _ => .error .notFound

theorem fileNames_layeredFiles : layeredFiles.fileNames "policy.d" = ["a", "b", "c"] := by
  decide +kernel

theorem document?_layeredFiles :
    layeredFiles.document? "policy.json" = some [("edit", .string "!"), ("view", .string "!")] ∧
      layeredFiles.document? "policy.d/a" = some [("edit", .string "@")] ∧
      layeredFiles.document? "policy.d/b" = none ∧
      layeredFiles.document? "policy.d/c" = some [("edit", .object []), ("list", .array [])] := by
  refine ⟨?_, ?_, ?_, ?_⟩ <;> cbv

/-- The value in the last file is no rule and leaves the one before it in force. -/
theorem load_by_precedence_layeredFiles :
    ∃ load, Sources.standard.load layeredFiles none = .ok load ∧
      load.store.get? "edit" = some .allow ∧ load.store.get? "view" = some .deny ∧
      load.store.get? "list" = some .allow ∧ load.store.get? "delete" = none ∧
      load.summary.files = 3 ∧ load.summary.skipped = 1 := by
  obtain ⟨policy, first, second, third⟩ := document?_layeredFiles
  have names := fileNames_layeredFiles
  obtain ⟨_, failure, success⟩ := load_by_precedence Sources.standard layeredFiles none
  have paths : Sources.standard.directoryPaths layeredFiles =
      ["policy.d/a", "policy.d/b", "policy.d/c"] := by
    simp [directoryPaths, Sources.standard, Files.pathsIn, names, Files.join]
  have documents : Sources.standard.documents layeredFiles =
      [[("edit", .string "!"), ("view", .string "!")], [("edit", .string "@")],
        [("edit", .object []), ("list", .array [])]] := by
    rw [Sources.documents, paths]
    simp [Sources.standard, policy, first, second, third]
  have lacking : layeredFiles.countLacking (Sources.standard.directoryPaths layeredFiles) = 1 := by
    rw [paths]
    simp [Files.countLacking, first, second, third]
  cases loaded : Sources.standard.load layeredFiles none with
  | error error =>
      have lacks := Load.documentAt_eq_error_iff.mpr ((failure error).mp loaded).2
      cases lacks.symm.trans (Load.documentAt_eq_ok_iff.mpr policy)
  | ok load =>
      obtain ⟨definitions, _, summary⟩ := success load loaded
      simp only [layers, documents] at definitions summary
      refine ⟨load, rfl, ?_, ?_, ?_, ?_, ?_, ?_⟩
      · rw [definitions]; cbv
      · rw [definitions]; cbv
      · rw [definitions]; cbv
      · rw [definitions]; cbv
      · rw [summary]; rfl
      · rw [summary]; simp only [lacking]

end Sources

end AccessPolicy
