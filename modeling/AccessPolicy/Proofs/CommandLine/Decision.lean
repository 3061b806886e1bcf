import AccessPolicy.CommandLine
import AccessPolicy.Proofs.Enforcer.History
import AccessPolicy.Proofs.Json.Quoting
import AccessPolicy.Proofs.Loading.Precedence
import AccessPolicy.Proofs.Rule.Spelling

/-! # Decisions on the command line

A use of the program that asks for a decision succeeds only if it is allowed. The
decision is printed, as a line with a JSON object, if and only if everything that it
depends on could be found: the settings, the policies that they name, and the two JSON
texts of the request. Otherwise nothing is printed, and the program does not succeed.
-/

namespace AccessPolicy.CommandLine

variable {files : Files} {environment : List (String × String)}
  {configuration rule target credentials : String}

/-- The inputs of a decision can be used: the settings lead to sources, the sources load as
a store, and both texts are JSON values. -/
structure Finds (files : Files) (environment : List (String × String))
    (configuration target credentials : String) (sources : Sources) (store : Store)
    (request : Request) : Prop where
  settings : Settings.load? files environment configuration = some sources
  loads : ∃ load, sources.load files none = .ok load ∧ load.store = store
  target : Json.read (Text.utf8 target) = .ok request.target
  credentials : Json.read (Text.utf8 credentials) = .ok request.credentials

/-- Inputs that can be used. -/
def Usable (files : Files) (environment : List (String × String))
    (configuration target credentials : String) : Prop :=
  ∃ sources store request,
    Finds files environment configuration target credentials sources store request

/-- The store of a load has the default rule of its sources. -/
theorem Finds.defaultRule {sources : Sources} {store : Store} {request : Request}
    (finds : Finds files environment configuration target credentials sources store request) :
    store.defaultRule = sources.defaultRule := by
  obtain ⟨load, loaded, rfl⟩ := finds.loads
  cases entered : (Load.ofStore (.base none)).enterPolicyFile files sources.file with
  | error error =>
      rw [Sources.load, entered] at loaded
      cases loaded
  | ok first =>
      rw [Sources.load, entered] at loaded
      cases loaded
      rfl

/-- The same inputs give the same store and the same request. -/
theorem Finds.unique {sources others : Sources} {store another : Store}
    {request wanted : Request}
    (finds : Finds files environment configuration target credentials sources store request)
    (again : Finds files environment configuration target credentials others another wanted) :
    store = another ∧ request = wanted := by
  obtain ⟨load, loaded, rfl⟩ := finds.loads
  obtain ⟨repeated, reloaded, rfl⟩ := again.loads
  cases finds.settings.symm.trans again.settings
  cases loaded.symm.trans reloaded
  have sameTarget : request.target = wanted.target :=
    Except.ok.inj (finds.target.symm.trans again.target)
  have sameCredentials : request.credentials = wanted.credentials :=
    Except.ok.inj (finds.credentials.symm.trans again.credentials)
  cases request
  cases wanted
  cases sameTarget
  cases sameCredentials
  exact ⟨rfl, rfl⟩

/-- With inputs that can be used, the outcome is that of the decision. -/
theorem perform_of_finds {sources : Sources} {store : Store} {request : Request}
    (finds : Finds files environment configuration target credentials sources store request) :
    perform files environment configuration (.check rule target credentials) =
      decided rule (store.decide rule request).allowed := by
  obtain ⟨load, loaded, rfl⟩ := finds.loads
  have found : enforcer? files environment configuration = some ⟨load.store, some sources⟩ := by
    simp only [enforcer?, finds.settings, Enforcer.ofSources_eq, loaded, Except.map]
  simp only [perform, found, check, request?, finds.target, finds.credentials]
  rfl

/-- Without them, the use of the program is a failure. -/
theorem perform_of_not_usable
    (lacking : ¬ Usable files environment configuration target credentials) :
    perform files environment configuration (.check rule target credentials) = failure := by
  cases settings : Settings.load? files environment configuration with
  | none => simp only [perform, enforcer?, settings]
  | some sources =>
      cases loaded : sources.load files none with
      | error error =>
          simp only [perform, enforcer?, settings, Enforcer.ofSources_eq, loaded, Except.map]
      | ok load =>
          have found : enforcer? files environment configuration =
              some ⟨load.store, some sources⟩ := by
            simp only [enforcer?, settings, Enforcer.ofSources_eq, loaded, Except.map]
          cases readsTarget : Json.read (Text.utf8 target) with
          | error error => simp only [perform, found, check, request?, readsTarget]
          | ok wanted =>
              cases readsCredentials : Json.read (Text.utf8 credentials) with
              | error error =>
                  simp only [perform, found, check, request?, readsTarget, readsCredentials]
              | ok given =>
                  exact absurd ⟨sources, load.store, ⟨wanted, given⟩, settings,
                    ⟨load, loaded, rfl⟩, readsTarget, readsCredentials⟩ lacking

/-! ## The printed line -/

theorem newline_notMem_decisionText (rule : String) (allowed : Bool) :
    '\n' ∉ (decisionText rule allowed).toList := by
  have keys := Json.newline_notMem_stringChars
  cases allowed <;>
    simp [decisionText, Json.compact, Json.chars, Json.laterMembers, keys]

/-- The line is a JSON object with the name of the rule and the decision. -/
theorem read_decisionText (rule : String) (allowed : Bool) :
    Json.read (Text.utf8 (decisionText rule allowed)) =
      .ok (.object [("allowed", .bool allowed), ("rule", .string rule)]) := by
  have readable : ∀ member ∈ [("rule", Json.string rule), ("allowed", .bool allowed)],
      Json.Readable member.2 := by
    intro member among
    simp only [List.mem_cons, List.not_mem_nil, or_false] at among
    rcases among with rfl | rfl
    · exact Json.readable_string rule
    · exact Json.readable_bool allowed
  exact Json.read_compact_object readable

theorem exitCode_decided (rule : String) (allowed : Bool) :
    (decided rule allowed).exitCode = 0 ↔ allowed = true := by
  cases allowed <;> simp [decided]

/-- **Failing closed.** A use of the program that asks for a decision succeeds exactly if its
inputs can be used and the rule, or the default rule of the settings, allows the request.
With inputs that can be used, the output is one line: a JSON object with the name of the
rule and whether the program succeeds. Otherwise there is no output and no success. -/
theorem check_fails_closed {arguments : List String}
    (accepted : Invocation.ofArguments? arguments =
      some (.run configuration (.check rule target credentials)))
    (files : Files) (environment : List (String × String)) :
    let outcome := run files environment arguments
    (outcome.exitCode = 0 ↔ ∃ sources store request,
      Finds files environment configuration target credentials sources store request ∧
        store.defaultRule = sources.defaultRule ∧
        (store.decide rule request).allowed = true) ∧
    (Usable files environment configuration target credentials →
      ∃ (line : String) (allowed : Bool), outcome.output = line ++ "\n" ∧ '\n' ∉ line.toList ∧
        line = (Json.object [("rule", .string rule), ("allowed", .bool allowed)]).compact ∧
        Json.read (Text.utf8 line) =
          .ok (.object [("allowed", .bool allowed), ("rule", .string rule)]) ∧
        (allowed = true ↔ outcome.exitCode = 0)) ∧
    (¬ Usable files environment configuration target credentials →
      outcome.output = "" ∧ outcome.exitCode ≠ 0) := by
  intro outcome
  have performed : outcome =
      perform files environment configuration (.check rule target credentials) := by
    simp only [outcome, run, accepted]
  refine ⟨⟨fun succeeds => ?_, ?_⟩, ?_, fun lacking => ?_⟩
  · -- A failure does not succeed, so the inputs can be used.
    by_cases usable : Usable files environment configuration target credentials
    · obtain ⟨sources, store, request, finds⟩ := usable
      rw [performed, perform_of_finds finds, exitCode_decided] at succeeds
      exact ⟨sources, store, request, finds, finds.defaultRule, succeeds⟩
    · rw [performed, perform_of_not_usable usable] at succeeds
      cases succeeds
  · rintro ⟨sources, store, request, finds, _, allowed⟩
    rw [performed, perform_of_finds finds, exitCode_decided]
    exact allowed
  · rintro ⟨sources, store, request, finds⟩
    refine ⟨decisionText rule (store.decide rule request).allowed,
      (store.decide rule request).allowed, ?_, newline_notMem_decisionText _ _, rfl,
      read_decisionText _ _, ?_⟩
    · rw [performed, perform_of_finds finds]
      rfl
    · rw [performed, perform_of_finds finds, exitCode_decided]
  · rw [performed, perform_of_not_usable lacking]
    exact ⟨rfl, by decide⟩

/-! ## A rule for editors -/

/-- A policy with a rule for editors, and a default rule that allows nothing. -/
def editorPolicy : List UInt8 :=
  Text.utf8 "\x7b\"default\":\"!\",\"edit\":\"role:editor\"\x7d"

def editorDocument : Document :=
  [("default", .string "!"), ("edit", .string "role:editor")]

def editorStore : Store :=
  ⟨(Table.empty.put "default" .deny).put "edit" (.role "editor"), "default"⟩

theorem read_editorPolicy : Document.read editorPolicy = .ok editorDocument := by
  have readable : ∀ member ∈ editorDocument, Json.Readable member.2 := by
    intro member among
    simp only [editorDocument, List.mem_cons, List.not_mem_nil, or_false] at among
    rcases among with rfl | rfl <;> exact Json.readable_string _
  have spelled : editorPolicy = Text.utf8 (Json.object editorDocument).compact := by cbv
  have ordered : Table.orderedEntries editorDocument = editorDocument := by cbv
  have reads : Json.read editorPolicy = .ok (.object editorDocument) := by
    rw [spelled, editorDocument, Json.read_compact_object readable, ← editorDocument, ordered]
  rw [Document.read, reads]
  rfl

/-- The policy as the only file. -/
def editorFiles : Files := fun path =>
  if path = "policy.json" then .ok (.file editorPolicy) else .error .notFound

def editorCredentials : String :=
  "\x7b\"roles\":[\"editor\"]\x7d"

def editorArguments (credentials rule : String) : List String :=
  ["check", "--creds", credentials, rule]

theorem load_editorFiles :
    ∃ load, Sources.standard.load editorFiles none = .ok load ∧ load.store = editorStore := by
  have denial : Rule.read "!" = .deny := by cbv
  have rule : Rule.read "role:editor" = .role "editor" := by
    have single : Rule.Token.ofText "role:editor".toList = [.leaf "role:editor"] := rfl
    exact Rule.read_of_word single
  have directory : editorFiles.filesIn? "policy.d" = none := by cbv
  have content : editorFiles.read "policy.json" = .ok editorPolicy := rfl
  have entered : (Load.ofStore (.base none)).enterPolicyFile editorFiles "policy.json" =
      .ok ((Load.ofStore .empty).enterFile "policy.json" editorDocument) := by
    rw [Load.enterPolicyFile, if_neg (by decide), Load.enterAt, Load.documentAt, content]
    simp only [read_editorPolicy]
    rfl
  refine ⟨_, by rw [Sources.load_eq, Sources.standard, entered, Except.map], ?_⟩
  simp only [List.foldl, Load.enterDirectory, directory, Load.finish, Load.enterFile, Load.ofStore,
    Store.enterDocument, editorDocument, Store.enterMember, Rule.ofValue, denial, rule]
  rfl

theorem finds_editorCredentials :
    Finds editorFiles [] "config.toml" "\x7b\x7d" editorCredentials .standard editorStore
      ⟨.object [], .object [("roles", .array [.string "editor"])]⟩ where
  settings := by cbv
  loads := load_editorFiles
  target := by cbv
  credentials := by cbv

theorem not_usable_brokenCredentials :
    ¬ Usable editorFiles [] "config.toml" "\x7b\x7d" "\x7b" := by
  rintro ⟨_, _, _, finds⟩
  have broken : (Json.read (Text.utf8 "\x7b")).toOption = none := by cbv
  rw [finds.credentials] at broken
  cases broken

/-- The one role that is given is the one that is wanted to edit. A name without a rule is
left to the default rule, which denies, and credentials that are not JSON give no answer. -/
theorem check_fails_closed_editorArguments :
    let edit := editorArguments editorCredentials "edit"
    let view := editorArguments editorCredentials "view"
    let broken := editorArguments "\x7b" "edit"
    (Invocation.ofArguments? edit =
        some (.run "config.toml" (.check "edit" "\x7b\x7d" editorCredentials)) ∧
      (run editorFiles [] edit).exitCode = 0 ∧
      ∃ line, (run editorFiles [] edit).output = line ++ "\n" ∧
        Json.read (Text.utf8 line) =
          .ok (.object [("allowed", .bool true), ("rule", .string "edit")])) ∧
    (Invocation.ofArguments? view =
        some (.run "config.toml" (.check "view" "\x7b\x7d" editorCredentials)) ∧
      (run editorFiles [] view).exitCode ≠ 0 ∧
      ∃ line, (run editorFiles [] view).output = line ++ "\n" ∧
        Json.read (Text.utf8 line) =
          .ok (.object [("allowed", .bool false), ("rule", .string "view")])) ∧
    Invocation.ofArguments? broken =
        some (.run "config.toml" (.check "edit" "\x7b\x7d" "\x7b")) ∧
      (run editorFiles [] broken).exitCode ≠ 0 ∧ (run editorFiles [] broken).output = "" := by
  intro edit view broken
  have finds := finds_editorCredentials
  refine ⟨?_, ?_, ?_⟩
  · have accepted : Invocation.ofArguments? edit =
        some (.run "config.toml" (.check "edit" "\x7b\x7d" editorCredentials)) := rfl
    obtain ⟨succeeds, prints, _⟩ := check_fails_closed accepted editorFiles []
    have success := succeeds.mpr ⟨_, _, _, finds, rfl, by cbv⟩
    obtain ⟨line, allowed, output, _, _, reads, agrees⟩ := prints ⟨_, _, _, finds⟩
    rw [agrees.mpr success] at reads
    exact ⟨accepted, success, line, output, reads⟩
  · have accepted : Invocation.ofArguments? view =
        some (.run "config.toml" (.check "view" "\x7b\x7d" editorCredentials)) := rfl
    obtain ⟨succeeds, prints, _⟩ := check_fails_closed accepted editorFiles []
    have denied : ¬ (run editorFiles [] view).exitCode = 0 := by
      intro success
      obtain ⟨_, _, _, others, _, allowed⟩ := succeeds.mp success
      obtain ⟨rfl, rfl⟩ := others.unique finds
      have denies : (editorStore.decide "view" ⟨.object [],
          .object [("roles", .array [.string "editor"])]⟩).allowed = false := by cbv
      rw [denies] at allowed
      cases allowed
    obtain ⟨line, allowed, output, _, _, reads, agrees⟩ := prints ⟨_, _, _, finds⟩
    rw [Bool.eq_false_iff.mpr (mt agrees.mp denied)] at reads
    exact ⟨accepted, denied, line, output, reads⟩
  · have accepted : Invocation.ofArguments? broken =
        some (.run "config.toml" (.check "edit" "\x7b\x7d" "\x7b")) := rfl
    obtain ⟨_, _, fails⟩ := check_fails_closed accepted editorFiles []
    exact ⟨accepted, (fails not_usable_brokenCredentials).symm⟩

end AccessPolicy.CommandLine
