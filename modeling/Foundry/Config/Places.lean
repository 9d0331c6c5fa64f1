import Foundry.Config.Schema
import Foundry.Files.Path

/-!
# Where things are kept

Default places follow the directories that the environment names; a configured
place wins over its default.
-/

namespace Foundry

abbrev Environment := List (String × String)

/-- The directories of a user, as the environment names them. -/
structure Places where
  configDir : String
  cacheDir : String
  stateDir : String
  tempDir : String
deriving DecidableEq, Repr, Inhabited

namespace Places

/-- The home directory of the account, where the environment names none. -/
def accountHome : String := "/root"

def homeDir (env : Environment) : String :=
  match env.lookup "HOME" with
  | some dir => if dir.isEmpty then accountHome else dir
  | none => accountHome

/-- A directory named by a variable, if it is named absolutely, or else below the home directory. -/
def baseDir (env : Environment) (name underHome : String) : String :=
  match (env.lookup name).filter Path.isAbsolute with
  | some dir => dir
  | none => Path.join (homeDir env) underHome

def ofEnvironment (env : Environment) : Places where
  configDir := Path.join (baseDir env "XDG_CONFIG_HOME" ".config") "kiln"
  cacheDir := Path.join (baseDir env "XDG_CACHE_HOME" ".cache") "kiln"
  stateDir := Path.join (baseDir env "XDG_STATE_HOME" ".local/state") "kiln"
  tempDir := (env.lookup "TMPDIR").getD "/tmp"

def configFile (p : Places) : String := Path.join p.configDir "config.toml"

def auditLog (p : Places) : String := Path.join p.stateDir "audit.log"

def outputs (p : Places) (c : Config) : String :=
  c.cache.dir.getD (Path.join p.cacheDir "outputs")

def template (p : Places) (c : Config) : String :=
  c.template.dir.getD (Path.join p.cacheDir "template")

def workspaces (p : Places) (c : Config) : String :=
  c.workspace.root.getD (Path.join p.tempDir "kiln-workspaces")

end Places

end Foundry
