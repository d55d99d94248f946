import SemanticStore.Fault
import SemanticStore.Files.Tree
import SemanticStore.Text.Quoted
import SemanticStore.Yaml.Record

/-!
# Workspace settings

Where the program works and what it logs. Settings come from the environment, from a YAML file in
the workspace or at a path of its own, and from the command that is run, each one going before those
named earlier, but for the log settings of the environment, which go before the file.
-/

namespace SemanticStore

/-- What a workspace and its log are set to. -/
structure WorkspaceSettings where
  /-- the directory that the program works in -/
  workspace : Path
  /-- a settings file to use in place of the one in the workspace -/
  file : Option Path
  logLevel : Option String
  verbose : Bool
  noColor : Bool

/-- The variables of the environment that count, as far as they are set. -/
structure Environment where
  workspace : Option Path
  file : Option Path
  logLevel : Option String
  noColor : Bool

namespace WorkspaceSettings

/-- The directory in a workspace that belongs to the program. -/
def directoryName : Path := ⟨".recall"⟩

def fileName : Path := ⟨"config.yaml"⟩

/-- The settings for a workspace where none are given. -/
def default (workspace : Path) : WorkspaceSettings := ⟨workspace, none, none, false, false⟩

def directory (s : WorkspaceSettings) : Path := s.workspace.join directoryName

def filePath (s : WorkspaceSettings) : Path := s.file.getD (s.directory.join fileName)

/-! ### Reading -/

/-- Takes over what a settings file gives in its sections `workspace` and `logging`. -/
def merge? (s : WorkspaceSettings) (d : Yaml.Document) : Option WorkspaceSettings := do
  let sections ← d.rootFields? ["workspace", "logging"]
  let workspace ← d.field sections "workspace" fun n => do
    d.field (← d.fields? ["path"] n) "path" d.text?
  let logging ← d.field sections "logging" fun n => do
    let fields ← d.fields? ["level", "color"] n
    return (← d.field fields "level" d.text?, ← d.field fields "color" d.bool?)
  let (level, color) := logging.getD (none, none)
  some
    { s with
      workspace := (workspace.join.map Path.mk).getD s.workspace
      logLevel := level.orElse fun _ => s.logLevel
      noColor := (color.map not).getD s.noColor }

/-- Takes over what the settings file gives, if it is there. The workspace has to be there. -/
def loadFile (files : Files) (s : WorkspaceSettings) : Except Fault WorkspaceSettings :=
  let path := Text.quoted s.filePath.text
  if !files.isThere s.workspace then
    .error <| .configuration <|
      "Workspace directory does not exist: " ++ Text.quoted s.workspace.text
  else if !files.isThere s.filePath then .ok s
  else match files.readText? s.filePath with
    | none => .error (.configuration ("Failed to read config file " ++ path ++ ": not a text"))
    | some text =>
        match (Yaml.Document.ofText? text).bind s.merge? with
        | some s => .ok s
        | none =>
            .error (.configuration ("Failed to parse config file " ++ path ++ ": not as expected"))

/-- The settings for a workspace, whatever the environment says. -/
def forWorkspace (files : Files) (workspace : Path) : Except Fault WorkspaceSettings :=
  loadFile files (default workspace)

/-- The settings for the working directory, or what the environment names in its place. -/
def load (files : Files) (current : Path) (e : Environment) : Except Fault WorkspaceSettings := do
  let s := { default (e.workspace.getD current) with file := e.file }
  let s ← loadFile files s
  .ok
    { s with
      logLevel := e.logLevel.orElse fun _ => s.logLevel
      noColor := e.noColor || s.noColor }

/-- The settings with those of a command put over them. A verbose command logs at level `debug`
unless another level is set. -/
def override (workspace : Option Path) (logLevel : Option String) (verbose noColor : Bool)
    (s : WorkspaceSettings) : WorkspaceSettings :=
  let logLevel := logLevel.orElse fun _ => s.logLevel
  { s with
    workspace := workspace.getD s.workspace
    logLevel := if verbose then some (logLevel.getD "debug") else logLevel
    verbose := verbose || s.verbose
    noColor := noColor || s.noColor }

/-! ### The program's directory -/

/-- Creates the program's directory if it is not there. -/
def ensureDirectory (s : WorkspaceSettings) (files : Files) : Except Fault Files :=
  if files.isThere s.directory then .ok files
  else match files.createDirectories? s.directory with
    | some files => .ok files
    | none =>
        .error (.configuration "Failed to create .recall directory: a file is in the way")

end WorkspaceSettings

end SemanticStore
