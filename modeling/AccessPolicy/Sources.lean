/-! # Policy sources

Where rules come from: a policy file, an empty path meaning none, and directories
of policy files; and the name of the rule that decides for undefined ones.
-/

namespace AccessPolicy

/-- Where rules come from and which of them is the default. -/
structure Sources where
  file : String
  defaultRule : String
  directories : List String
deriving DecidableEq

/-- The sources used where nothing else is said. -/
def Sources.standard : Sources :=
  ⟨"policy.json", "default", ["policy.d"]⟩

instance : Inhabited Sources := ⟨.standard⟩

end AccessPolicy
