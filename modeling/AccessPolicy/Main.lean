import AccessPolicy.CommandLine

/-! # The program

The surroundings are looked at first, as far as the arguments ask for it: the
environment, the configuration file, and the policy sources it names. What the
program then does is decided from that picture alone.
-/

namespace AccessPolicy.Surroundings

abbrev Picture : Type :=
  List (String × Place)

def view (picture : Picture) : Files := fun path =>
  match picture.lookup path with
  | some place => .ok place
  | none => .error .notFound

/-- The names and values of the variables in an environment block, or `none` if that
is not encoded in UTF-8. -/
def variables? (block : List UInt8) : Option (List (String × String)) :=
  match Text.decodeUtf8 block with
  | (text, []) =>
    some (((Text.splitOn '\x00' text).filterMap Invocation.splitAtEquals?).map
      fun (name, value) => (String.ofList name, String.ofList value))
  | _ => none

def look (path : String) : IO (Option Place) := do
  try
    let content ← IO.FS.readBinFile path
    return some (.file content.toList)
  catch _ =>
    try
      let entries ← ((← IO.currentDir) / path).readDir
      return some (.directory (entries.toList.map fun entry => entry.fileName))
    catch _ => return none

/-- What a path leads to, and what the names in it lead to if it is a
directory. -/
def lookInside (path : String) : IO Picture := do
  match ← look path with
  | none => return []
  | some (.file content) => return [(path, .file content)]
  | some (.directory names) =>
    let inner ← names.mapM fun name => do
      let path := Files.join path name
      return (← look path).toList.map fun place => (path, place)
    return (path, .directory names) :: inner.flatten

/-- What the paths that a use of the program needs lead to. -/
def lookFor (environment : List (String × String)) : Invocation → IO Picture
  | .version | .run _ (.parse _) => return []
  | .run configuration _ => do
    let paths := configuration :: (Settings.extended? configuration).toList
    let settings ← List.flatten <$> paths.mapM lookInside
    match Settings.load? (view settings) environment configuration with
    | none => return settings
    | some sources =>
      let policies ← (sources.file :: sources.directories).mapM lookInside
      return settings ++ policies.flatten

end AccessPolicy.Surroundings

open AccessPolicy in
/-- Does what the arguments ask for. An environment that is no text is a failure. -/
def main (arguments : List String) : IO UInt32 := do
  let block ← try (·.toList) <$> IO.FS.readBinFile "/proc/self/environ" catch _ => pure []
  let some environment := Surroundings.variables? block | return 1
  let picture ←
    match Invocation.ofArguments? arguments with
    | some invocation => Surroundings.lookFor environment invocation
    | none => pure []
  let outcome := CommandLine.run (Surroundings.view picture) environment arguments
  IO.print outcome.output
  return outcome.exitCode.toUInt32
