import AccessPolicy.Environment
import AccessPolicy.Files
import AccessPolicy.Json.Printer
import AccessPolicy.Sources
import AccessPolicy.Toml.Reader

/-! # Settings

The policy sources are settings. They have standard values. A TOML file gives
settings, environment variables are entered among these, and the outcome is laid
over the standard values. Where a text is wanted a boolean or a number stands for
its text; everything else that is not of the right kind makes the settings
invalid.

TOML is the only format of configuration files that is covered, as far as
`Toml.read` covers it. Settings that are written in JSON, JSON5, YAML, INI or RON
are out of scope: a file that is there with another extension makes the settings
invalid, and no other extension is tried where a path has none.
-/

namespace AccessPolicy

namespace Sources

/-- The sources that the fields of an object give; a missing one is standard. -/
def ofFields? {α : Type} (text? : α → Option String) (texts? : α → Option (List String))
    (file defaultRule directories : Option α) : Option Sources := do
  let file ← (file.map text?).getD (some standard.file)
  let defaultRule ← (defaultRule.map text?).getD (some standard.defaultRule)
  let directories ← (directories.map texts?).getD (some standard.directories)
  some ⟨file, defaultRule, directories⟩

/-- The text that a JSON value is. -/
def jsonText? : Json → Option String
  | .string text => some text
  | _ => none

/-- The texts that a JSON array consists of. -/
def jsonTexts? : Json → Option (List String)
  | .array items => items.mapM jsonText?
  | _ => none

/-- The sources that a JSON value describes, as an object or as an array of the
fields in order. -/
def ofJson? : Json → Option Sources
  | .object members =>
    ofFields? jsonText? jsonTexts? (members.lookup "policy_file")
      (members.lookup "policy_default_rule") (members.lookup "policy_dirs")
  | .array items =>
    if items.length ≤ 3 then ofFields? jsonText? jsonTexts? items[0]? items[1]? items[2]?
    else none
  | _ => none

/-- The JSON object of the settings that consist of the sources. -/
def toJson (sources : Sources) : Json :=
  .object [("policy", .object [
    ("policy_file", .string sources.file),
    ("policy_default_rule", .string sources.defaultRule),
    ("policy_dirs", .array (sources.directories.map .string))])]

/-- The settings that the standard sources make. -/
def standardSetting : Setting :=
  .table [("policy", .table [
    ("policy_default_rule", .text standard.defaultRule),
    ("policy_dirs", .list (standard.directories.map .text)),
    ("policy_file", .text standard.file)])]

/-- The sources that settings give, as a table or as a list of the fields in order.
Names and items beyond the fields are of no account. -/
def ofSetting? (setting : Setting) : Option Sources :=
  match setting.get? "policy" with
  | some (.table policy) =>
    ofFields? Setting.text? Setting.texts? (policy.lookup "policy_file")
      (policy.lookup "policy_default_rule") (policy.lookup "policy_dirs")
  | some (.list items) =>
    ofFields? Setting.text? Setting.texts? items[0]? items[1]? items[2]?
  | _ => none

end Sources

namespace Settings

/-- The part of a name after its last dot, if there is one that does not start the
name. -/
def extension? (path : String) : Option (List Char) :=
  let name := (Text.splitOn '/' path.toList).getLast?.getD []
  match (Text.splitOn '.' name).reverse with
  | extension :: before :: others => if others = [] ∧ before = [] then none else some extension
  | _ => none

/-- The text of a file, without a byte order mark, or `none` if it is not encoded
in UTF-8. -/
def decode? (content : List UInt8) : Option (List Char) :=
  match Text.decodeUtf8 content with
  | ('\ufeff' :: text, []) => some text
  | (text, []) => some text
  | _ => none

/-- The path of a file beside what a path leads to, named like that with the
extension for TOML added. A path that ends by going up, or nowhere but here, has
none. -/
def extended? (path : String) : Option String :=
  match (Files.names path).reverse.dropWhile Files.isHere with
  | [] => none
  | name :: before =>
    if name = ".." then none
    else some ("/".intercalate (name :: before).reverse ++ ".toml")

/-- The content of the configuration file that a path names: a file with the
extension for TOML, or one to which that extension is added. A file with the
extension of another format counts as unreadable here. -/
def content? (files : Files) (path : String) : Option (List UInt8) :=
  match files.read path with
  | .ok content => if extension? path = some "toml".toList then some content else none
  | .error _ => (extended? path).bind fun path => (files.read path).toOption

/-- The entries of the configuration file that a path names, none if it leads
nowhere. -/
def fileEntries? (files : Files) (path : String) : Option (List (String × Setting)) :=
  if files.exists? path then do
    let content ← content? files path
    let text ← decode? content
    let setting ← Toml.read text
    some setting.entries
  else some []

/-- The sources that a configuration file, of the format covered here, and
environment variables give. -/
def load? (files : Files) (environment : List (String × String)) (path : String) :
    Option Sources := do
  let fromFile ← fileEntries? files path
  let given := ((Setting.table []).enterAll fromFile).enterAll (Environment.entries environment)
  Sources.ofSetting? (Sources.standardSetting.enterAll given.entries)

end Settings

end AccessPolicy
