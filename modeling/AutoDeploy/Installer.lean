import AutoDeploy.GoStrings
import AutoDeploy.InterleavingRestart

namespace AutoDeploy.Installer

open Interleaving

structure HostFile where
  content : String
  mode : ℕ

/-- The host of a run of `install.sh`: its files, and the commands that have succeeded in it, each
with its standard output. -/
structure Host where
  files : String → Option HostFile
  done : List (List String × String)

/-- What becomes of a command: its exit status, its standard output, and what it leaves at the paths
that it writes to. -/
structure Answer where
  status : ℕ
  stdout : String
  left : String → Option HostFile

/-- How the script ends before its last line. -/
structure Exit where
  code : ℕ
  stderr : String

abbrev Script (α : Type) := ExceptT Exit (Prog Host Answer Unit) α

/-- The variables of the script, and what it asks the shell about the host. -/
structure Env where
  repo : String
  tagGlob : String
  binaryName : String
  assetAmd64 : String
  assetArm64 : String
  installDir : String
  binaryPath : String
  serviceUnitPath : String
  envPath : String
  envTemplateName : String
  serviceUnitName : String
  githubAPIBase : String
  githubDownloadBase : String
  githubRawBase : String
  systemdDir : String
  curl : String
  unzip : String
  install : String
  systemctl : String
  mktemp : String
  sed : String
  tr : String
  uname : String
  idBin : String
  hasCommand : String → Bool
  isDirectory : String → Bool

/-- `: "${NAME:=default}"`. -/
def orDefault (getenv : String → Option String) (name fallback : String) : String :=
  match getenv name with
  | some value => if value = "" then fallback else value
  | none => fallback

def Env.load (getenv : String → Option String) (hasCommand isDirectory : String → Bool) : Env :=
  let binaryName := orDefault getenv "AUTO_DEPLOY_BINARY_NAME" "auto-deploy"
  let installDir := orDefault getenv "AUTO_DEPLOY_INSTALL_DIR" "/opt/auto-deploy"
  { repo := orDefault getenv "AUTO_DEPLOY_REPO" "izzamoe/auto-deploy-and-refresh-go"
    tagGlob := orDefault getenv "AUTO_DEPLOY_TAG_GLOB" "v*"
    binaryName := binaryName
    assetAmd64 := orDefault getenv "AUTO_DEPLOY_ASSET_AMD64" "auto-deploy_linux_amd64.zip"
    assetArm64 := orDefault getenv "AUTO_DEPLOY_ASSET_ARM64" "auto-deploy_linux_arm64.zip"
    installDir := installDir
    binaryPath := orDefault getenv "AUTO_DEPLOY_BINARY_PATH" (installDir ++ "/" ++ binaryName)
    serviceUnitPath := orDefault getenv "AUTO_DEPLOY_SERVICE_UNIT_PATH"
      "/etc/systemd/system/auto-deploy.service"
    envPath := orDefault getenv "AUTO_DEPLOY_ENV_PATH" "/etc/auto-deploy.env"
    envTemplateName := orDefault getenv "AUTO_DEPLOY_ENV_TEMPLATE_NAME" "auto-deploy.env.example"
    serviceUnitName := orDefault getenv "AUTO_DEPLOY_SERVICE_UNIT_NAME" "auto-deploy.service"
    githubAPIBase := orDefault getenv "AUTO_DEPLOY_GITHUB_API_BASE" "https://api.github.com"
    githubDownloadBase := orDefault getenv "AUTO_DEPLOY_GITHUB_DOWNLOAD_BASE" "https://github.com"
    githubRawBase := orDefault getenv "AUTO_DEPLOY_GITHUB_RAW_BASE"
      "https://raw.githubusercontent.com"
    systemdDir := orDefault getenv "AUTO_DEPLOY_SYSTEMD_DIR" "/run/systemd/system"
    curl := orDefault getenv "AUTO_DEPLOY_CURL_BIN" "curl"
    unzip := orDefault getenv "AUTO_DEPLOY_UNZIP_BIN" "unzip"
    install := orDefault getenv "AUTO_DEPLOY_INSTALL_BIN" "install"
    systemctl := orDefault getenv "AUTO_DEPLOY_SYSTEMCTL_BIN" "systemctl"
    mktemp := orDefault getenv "AUTO_DEPLOY_MKTEMP_BIN" "mktemp"
    sed := orDefault getenv "AUTO_DEPLOY_SED_BIN" "sed"
    tr := orDefault getenv "AUTO_DEPLOY_TR_BIN" "tr"
    uname := orDefault getenv "AUTO_DEPLOY_UNAME_BIN" "uname"
    idBin := orDefault getenv "AUTO_DEPLOY_ID_BIN" "id"
    hasCommand := hasCommand
    isDirectory := isDirectory }

/-- A path below a directory. -/
def inside (dir path : String) : Bool := (dir ++ "/").toList.isPrefixOf path.toList

/-- What a command leaves that writes at the paths of `scope` only. -/
def Host.after (h : Host) (argv : List String) (scope : String → Bool) (k : Answer) : Host where
  files path := if scope path then k.left path else h.files path
  done := if k.status = 0 then h.done ++ [(argv, k.stdout)] else h.done

def fail {α : Type} (message : String) : Script α := throw ⟨1, message⟩

/-- `if …; then fail …; fi` -/
def failIf (bad : Prop) [Decidable bad] (message : String) : Script Unit :=
  if bad then fail message else return ()

/-- A command in a condition, or one whose exit status nobody reads. -/
def command (argv : List String) (scope : String → Bool) : Script Answer :=
  ExceptT.lift (Prog.atomic fun h k => (k, h.after argv scope k, []))

/-- A command of its own line: `set -e` ends the script when it fails. -/
def simple (argv : List String) (scope : String → Bool) : Script Answer := do
  let k ← command argv scope
  if k.status = 0 then return k else throw ⟨k.status, ""⟩

/-- What `$(…)` takes of an output. -/
def captured (text : String) : String :=
  String.ofList (text.toList.reverse.dropWhile (· == '\n')).reverse

def nowhere : String → Bool := fun _ => false

def usage (env : Env) : String :=
  "Usage: install.sh [vX.Y.Z]\n\nInstalls auto-deploy on Linux with systemd.\n\nContract:\n" ++
  "  - default version: latest stable GitHub release\n" ++
  "  - explicit version override: positional tag argument matching " ++ env.tagGlob ++ "\n" ++
  "  - supported OS/arch: Linux amd64, Linux arm64\n" ++
  "  - supported assets: " ++ env.assetAmd64 ++ ", " ++ env.assetArm64 ++ "\n" ++
  "  - install path: " ++ env.installDir ++ "\n" ++
  "  - upgrade behavior: overwrite binary and service unit, preserve existing " ++ env.envPath ++
  "\n  - runtime files fetched separately from raw.githubusercontent.com at the same tag\n" ++
  "  - systemd activation: systemctl daemon-reload && systemctl enable " ++ env.serviceUnitName ++
  " && systemctl restart " ++ env.serviceUnitName ++ "\n"

def requireCommand (env : Env) (bin name : String) : Script Unit :=
  if env.hasCommand bin then return () else fail ("missing required command: " ++ name)

def requireLinux (env : Env) : Script Unit := do
  let os ← simple [env.uname, "-s"] nowhere
  failIf (captured os.stdout ≠ "Linux")
    ("unsupported operating system: " ++ captured os.stdout ++ " (supported: Linux only)")

def requireSystemd (env : Env) : Script Unit := do
  failIf (env.isDirectory env.systemdDir = false)
    ("unsupported init system: systemd runtime not detected at " ++ env.systemdDir)
  let k ← command [env.systemctl, "--version"] nowhere
  failIf (k.status ≠ 0) "systemctl is installed but unusable on this host"

/-- A number without a sign, which `test` compares. -/
def number (text : String) : Option ℕ :=
  if text ≠ "" ∧ text.toList.all Char.isDigit = true then
    some (text.toList.foldl (fun n c => 10 * n + (c.toNat - '0'.toNat)) 0)
  else none

/-- Where `id` prints no number, the test fails and the script goes on. -/
def requireRoot (env : Env) : Script Unit := do
  let k ← command [env.idBin, "-u"] nowhere
  match number (captured k.stdout) with
  | some uid => failIf (uid ≠ 0) "install.sh must run as root (use sudo)."
  | none => return ()

def normalizeArch (rawArch : String) : Option String :=
  if rawArch = "x86_64" ∨ rawArch = "amd64" then some "amd64"
  else if rawArch = "aarch64" ∨ rawArch = "arm64" then some "arm64"
  else none

def assetNameForArch (env : Env) (arch : String) : Option String :=
  if arch = "amd64" then some env.assetAmd64
  else if arch = "arm64" then some env.assetArm64
  else none

def detectArch (env : Env) : Script String := do
  let rawArch ← simple [env.uname, "-m"] nowhere
  match normalizeArch (captured rawArch.stdout) with
  | some arch => return arch
  | none =>
    fail ("unsupported architecture: " ++ captured rawArch.stdout ++ " (supported: amd64, arm64)")

def latestReleaseAPIURL (env : Env) : String :=
  env.githubAPIBase ++ "/repos/" ++ env.repo ++ "/releases/latest"

def releaseAssetURL (env : Env) (version asset : String) : String :=
  env.githubDownloadBase ++ "/" ++ env.repo ++ "/releases/download/" ++ version ++ "/" ++ asset

def releaseRawURL (env : Env) (version file : String) : String :=
  env.githubRawBase ++ "/" ++ env.repo ++ "/" ++ version ++ "/" ++ file

def isSpace (c : Char) : Bool := [' ', '\t', '\n', '\x0b', '\x0c', '\r'].contains c

/-- The group of `"tag_name"[[:space:]]*:[[:space:]]*"\([^"]*\)"`, if the text starts so. -/
def tagNameAt (text : List Char) : Option (List Char) := do
  let rest ← text.dropPrefix? "\"tag_name\"".toList
  let rest ← (rest.dropWhile isSpace).dropPrefix? [':']
  let rest ← (rest.dropWhile isSpace).dropPrefix? ['"']
  let value := rest.takeWhile (· != '"')
  if value.length < rest.length then return value else none

/-- What `sed` prints of a line: the `.*` in front takes as much as it can. -/
def tagName (line : List Char) : Option (List Char) := line.tails.reverse.findSome? tagNameAt

def latestTag (json : String) : String :=
  captured (String.ofList (['\n'].intercalate ((json.toList.splitOn '\n').filterMap tagName)))

def latestVersion (env : Env) : Script String := do
  let k ← command [env.curl, "-fsSL", latestReleaseAPIURL env] nowhere
  failIf (k.status ≠ 0) ("failed to resolve latest stable release from " ++ latestReleaseAPIURL env)
  failIf (latestTag (captured k.stdout) = "")
    ("failed to parse latest stable release tag from " ++ latestReleaseAPIURL env)
  return latestTag (captured k.stdout)

def resolveVersion (env : Env) : List String → Script String
  | [] => latestVersion env
  | [tag] =>
    if GoStrings.hasPrefix tag "v" then return captured tag
    else fail ("version override must be a git tag matching " ++ env.tagGlob ++ " (got " ++ tag ++
      ")")
  | _ :: _ :: _ => throw ⟨1, usage env⟩

def downloadToFile (env : Env) (url destination label : String) : Script Unit := do
  let k ← command [env.curl, "-fsSL", url, "-o", destination] (· == destination)
  failIf (k.status ≠ 0) ("failed to download " ++ label ++ " from " ++ url)

/-- `tr '\n' ' ' | sed 's/[[:space:]]*$//'`. -/
def archiveContents (listing : String) : String :=
  String.ofList ((listing.toList.map fun c => if c = '\n' then ' ' else c).reverse.dropWhile
    isSpace).reverse

def validateArchiveContract (env : Env) (archivePath contentsFile : String) : Script Unit := do
  let k ← command [env.unzip, "-Z1", archivePath] (· == contentsFile)
  failIf (k.status ≠ 0) ("failed to inspect release archive: " ++ archivePath)
  failIf (archiveContents k.stdout ≠ env.binaryName)
    ("release archive contract violation: expected only " ++ env.binaryName ++ ", got: " ++
      archiveContents k.stdout)

/-- `install` with a source: it makes a copy of it with the mode, or fails. -/
def installFile (env : Env) (options : List String) (mode : ℕ) (source target : String) :
    Script Unit := do
  let status ← ExceptT.lift (Prog.atomic fun h (k : Answer) =>
    match h.files source with
    | none => (max 1 k.status, h, [])
    | some file =>
      let left := if k.status = 0 then some ⟨file.content, mode⟩ else k.left target
      (k.status, h.after ([env.install] ++ options ++ [source, target]) (· == target)
        { k with left := fun _ => left }, []))
  if status = 0 then return () else throw ⟨status, ""⟩

/-- `[ -f path ]` -/
def isFile (path : String) : Script Bool :=
  ExceptT.lift (Prog.atomic fun h _ => ((h.files path).isSome, h, []))

/-- An environment file that is there stays. -/
def installEnv (env : Env) (envTemplateDownloadPath : String) : Script Unit := do
  let preserved ← isFile env.envPath
  if preserved then return ()
  else installFile env ["-D", "-m", "644"] 0o644 envTemplateDownloadPath env.envPath

/-- The lines of `main` behind the `trap`, up to the last download. -/
def fetchRelease (env : Env) (tmpDir version assetName : String) : Script Unit := do
  let archivePath := tmpDir ++ "/" ++ assetName
  downloadToFile env (releaseAssetURL env version assetName) archivePath "release asset"
  validateArchiveContract env archivePath (tmpDir ++ "/" ++ "archive-contents.txt")
  let k ← command [env.unzip, "-q", archivePath, "-d", tmpDir ++ "/unpacked"]
    (inside (tmpDir ++ "/unpacked"))
  failIf (k.status ≠ 0) ("failed to extract release archive: " ++ archivePath)
  downloadToFile env (releaseRawURL env version env.serviceUnitName)
    (tmpDir ++ "/" ++ env.serviceUnitName) env.serviceUnitName
  downloadToFile env (releaseRawURL env version env.envTemplateName)
    (tmpDir ++ "/" ++ env.envTemplateName) env.envTemplateName

def copyRelease (env : Env) (tmpDir : String) : Script Unit := do
  let _ ← simple [env.install, "-d", "-m", "755", env.installDir] nowhere
  installFile env ["-m", "755"] 0o755 (tmpDir ++ "/unpacked/" ++ env.binaryName) env.binaryPath
  installFile env ["-D", "-m", "644"] 0o644 (tmpDir ++ "/" ++ env.serviceUnitName)
    env.serviceUnitPath
  installEnv env (tmpDir ++ "/" ++ env.envTemplateName)

def activate (env : Env) : Script Unit := do
  let _ ← simple [env.systemctl, "daemon-reload"] nowhere
  let _ ← simple [env.systemctl, "enable", env.serviceUnitName] nowhere
  let _ ← simple [env.systemctl, "restart", env.serviceUnitName] nowhere
  let k ← command [env.systemctl, "is-active", "--quiet", env.serviceUnitName] nowhere
  failIf (k.status ≠ 0) ("service failed to start: " ++ env.serviceUnitName)

def installRelease (env : Env) (tmpDir version assetName : String) : Script Unit := do
  fetchRelease env tmpDir version assetName
  copyRelease env tmpDir
  activate env

/-- `main`, from the version on. `tmpDir` is the directory that `mktemp -d` makes, and what is
below it is removed when the script ends. -/
def installVersion (env : Env) (tmpDir arch version : String) : Script Unit := do
  failIf (GoStrings.hasPrefix version "v" = false)
    ("resolved release tag must match " ++ env.tagGlob ++ " (got " ++ version ++ ")")
  match assetNameForArch env arch with
  | none => fail ("no release asset defined for architecture: " ++ arch)
  | some assetName =>
    let _ ← simple [env.mktemp, "-d"] nowhere
    let result ← ExceptT.lift (installRelease env tmpDir version assetName).run
    let _ ← command ["rm", "-rf", tmpDir] (inside tmpDir)
    match result with
    | .ok () => return ()
    | .error stop => throw stop

def requireCommands (env : Env) : List (String × String) → Script Unit
  | [] => return ()
  | (bin, name) :: rest => do
    requireCommand env bin name
    requireCommands env rest

def main (env : Env) (tmpDir : String) (args : List String) : Script Unit :=
  if args.head? = some "-h" ∨ args.head? = some "--help" then return ()
  else do
    requireCommands env [(env.curl, "curl"), (env.unzip, "unzip"), (env.install, "install"),
      (env.systemctl, "systemctl"), (env.mktemp, "mktemp"), (env.sed, "sed"), (env.tr, "tr"),
      (env.uname, "uname"), (env.idBin, "id")]
    requireLinux env
    let arch ← detectArch env
    requireSystemd env
    requireRoot env
    let version ← resolveVersion env args
    installVersion env tmpDir arch version

end AutoDeploy.Installer
