import Postmortem.Path
import Postmortem.Text.Blank
import Postmortem.Json.Document

/-!
# Settings

What a host may set, and the directories in which script files are looked for.

* `Settings.read` reads a JSON document in which every field may be left out.
* `Settings.searchPaths` adds the directories named by an environment variable.
-/

namespace Postmortem

structure Settings where
  /-- End the process after a fault has been reported. -/
  dieOnError : Bool := false
  /-- Command to run after each reported fault; none if empty. -/
  runOnError : String := ""
  searchDirs : List Path := ["gamemodes", "filterscripts"]
  /-- Environment variable that names further directories. -/
  pathVariable : String := "CRASHSCOPE_SCRIPT_PATH"
  /-- Entry index at which a debugger detaches. -/
  detachIndex : Option Int32 := some (-10)
  /-- Put in front of every line of a report. -/
  marker : String := "[debug] "
  deriving DecidableEq, Repr

/-- Variables of a process with their values, each set once. -/
structure Environment where
  bindings : List (String × String) := []

namespace Environment

/-- No variable has an empty name or one with an equals sign or a null character in it. -/
def value? (env : Environment) (name : String) : Option String :=
  if name.isEmpty || name.any (fun c => c == '=' || c == '\x00') then none
  else env.bindings.lookup name

end Environment

namespace Settings

/-- Why settings are refused. -/
inductive Error where
  | document (cause : Json.Error)
  deriving DecidableEq, Repr

/-- What failed, without the cause. -/
def Error.subject : Error → String
  | document _ => "failed to parse configuration JSON"

def Error.message : Error → String
  | document cause => "failed to parse configuration JSON: " ++ cause.message

instance : Document Settings where
  toJson s := .record
    [("die_on_error", Document.toJson s.dieOnError),
     ("run_on_error", Document.toJson s.runOnError),
     ("search_dirs", Document.toJson s.searchDirs),
     ("script_path_env", Document.toJson s.pathVariable),
     ("detach_sentinel_index", Document.toJson s.detachIndex),
     ("log_prefix", Document.toJson s.marker)]
  ofJson v := do
    let fs ← v.fields ["die_on_error", "run_on_error", "search_dirs", "script_path_env",
      "detach_sentinel_index", "log_prefix"]
    let d : Settings := {}
    return {
      dieOnError := ← fs.optional "die_on_error" d.dieOnError
      runOnError := ← fs.optional "run_on_error" d.runOnError
      searchDirs := ← fs.optional "search_dirs" d.searchDirs
      pathVariable := ← fs.optional "script_path_env" d.pathVariable
      detachIndex := ← fs.optional "detach_sentinel_index" d.detachIndex
      marker := ← fs.optional "log_prefix" d.marker }

def read (text : String) : Except Error Settings :=
  match Document.read Settings text with
  | .ok s => .ok s
  | .error cause => .error (.document cause)

/-- The directories in the environment variable, between colons, without the empty ones. -/
def environmentPaths (s : Settings) (env : Environment) : List Path :=
  match env.value? s.pathVariable with
  | some value =>
    ((value.toList.splitOn ':').filter (!·.isEmpty)).map String.ofList
  | none => []

def searchPaths (s : Settings) (env : Environment) : List Path :=
  s.searchDirs ++ s.environmentPaths env

end Settings

end Postmortem
