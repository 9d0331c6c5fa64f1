import Foundry.Number.Binary64

/-!
# Configuration

The settings of the service, section by section, with the values that hold when
nothing is configured. Texts of the template and toolchain sections may hold
placeholders.
-/

namespace Foundry

structure GeneralSettings where
  logFormat : String := "text"
  auditLog : Bool := true
deriving DecidableEq, Repr, Inhabited

structure ServerSettings where
  bind : String := "127.0.0.1:8080"
  maxBodyBytes : Nat := 262144
deriving DecidableEq, Repr, Inhabited

/-- Patterns that reject a source outright: a coarse filter, no isolation boundary. -/
def defaultDenyPatterns : List String :=
  ["system(", "popen(", "fork(", "execv", "posix_spawn", "Process(", "NSTask", "std::process",
   "Command::new", "import Darwin", "import Glibc", "dlopen("]

structure Limits where
  maxSourceBytes : Nat := 100000
  maxTimeout : Binary64 := Binary64.ofNat 240
  defaultTimeout : Binary64 := Binary64.ofNat 240
  denyPatterns : List String := defaultDenyPatterns
deriving DecidableEq, Repr, Inhabited

structure CacheSettings where
  enabled : Bool := true
  dir : Option String := none
  maxEntries : Nat := 100
  maxAgeSecs : Nat := 3600
deriving DecidableEq, Repr, Inhabited

def defaultTemplateManifest : String :=
  "[package]\nname = \"kiln-template\"\nversion = \"0.1.0\"\nedition = \"2021\"\n\n" ++
  "[lib]\npath = \"src/lib.rs\"\n\n" ++
  "[dependencies]\n\x7b\x7bdependency_name\x7d\x7d = \x7b\x7bdependency_remote\x7d\x7d\n"

/-- The prebuilt dependency that requests share. -/
structure TemplateSettings where
  enabled : Bool := true
  dir : Option String := none
  buildArgs : List String := ["build", "--release"]
  manifest : String := defaultTemplateManifest
  sourceFile : String := "src/lib.rs"
  source : String := "pub use \x7b\x7bdependency_name\x7d\x7d::*;\n"
  buildTimeoutSecs : Nat := 600
  lockWaitSecs : Nat := 120
  warmOnStart : Bool := true
deriving DecidableEq, Repr, Inhabited

structure WorkspaceSettings where
  root : Option String := none
deriving DecidableEq, Repr, Inhabited

/-- How a manifest refers to the shared dependency. -/
structure Dependency where
  name : String := "syntaxkit"
  remote : String := "\x7b version = \"0.1\" \x7d"
  localRef : String := "\x7b path = \"\x7b\x7btemplate\x7d\x7d\", package = \"kiln-template\" \x7d"
deriving DecidableEq, Repr, Inhabited

def defaultManifest : String :=
  "[package]\nname = \"\x7b\x7bpackage\x7d\x7d\"\nversion = \"0.1.0\"\nedition = \"2021\"\n\n" ++
  "[dependencies]\n\x7b\x7bdependency_name\x7d\x7d = \x7b\x7bdependency\x7d\x7d\n\n[workspace]\n"

def defaultSource : String :=
  "#[allow(unused_imports)]\nuse \x7b\x7bdependency_name\x7d\x7d::*;\n\nfn main() \x7b\n" ++
  "    let generated = \x7b\n\x7b\x7bsource\x7d\x7d\n    \x7d;\n" ++
  "    println!(\"\x7b\x7bsentinel\x7d\x7d\");\n    println!(\"\x7b\x7d\", generated);\n\x7d\n"

def defaultArtifacts : List String :=
  ["\x7b\x7btemplate\x7d\x7d/target/release/\x7b\x7bpackage\x7d\x7d*",
   "\x7b\x7btemplate\x7d\x7d/target/release/deps/\x7b\x7bpackage\x7d\x7d-*",
   "\x7b\x7btemplate\x7d\x7d/target/release/.fingerprint/\x7b\x7bpackage\x7d\x7d-*"]

/-- The external commands, and the files they are given. -/
structure Toolchain where
  buildCommand : String := "cargo"
  buildArgs : List String := ["build", "--release", "--quiet"]
  runCommand : String := "\x7b\x7btemplate\x7d\x7d/target/release/\x7b\x7bpackage\x7d\x7d"
  runArgs : List String := []
  /-- Sorted by name, each name once. -/
  env : List (String × String) := [("CARGO_TARGET_DIR", "\x7b\x7btemplate\x7d\x7d/target")]
  manifestFile : String := "Cargo.toml"
  manifest : String := defaultManifest
  sourceFile : String := "src/main.rs"
  source : String := defaultSource
  sentinel : String := "=== KILN OUTPUT ==="
  artifacts : List String := defaultArtifacts
  dependency : Dependency := {}
deriving DecidableEq, Repr, Inhabited

structure Config where
  general : GeneralSettings := {}
  server : ServerSettings := {}
  limits : Limits := {}
  cache : CacheSettings := {}
  template : TemplateSettings := {}
  workspace : WorkspaceSettings := {}
  toolchain : Toolchain := {}
deriving DecidableEq, Repr, Inhabited

/-- Put a name into a list sorted by name, replacing an earlier value. -/
def insertSorted {α : Type} (name : String) (value : α) :
    List (String × α) → List (String × α)
  | [] => [(name, value)]
  | (n, v) :: rest =>
    if name = n then (name, value) :: rest
    else if name < n then (name, value) :: (n, v) :: rest
    else (n, v) :: insertSorted name value rest

end Foundry
