import AutoDeploy.GoStrings
import AutoDeploy.ShellSyntax

namespace AutoDeploy

def defaultUpgradeScriptURL : String :=
  "https://raw.githubusercontent.com/izzamoe/auto-deploy-and-refresh-go/master/install.sh"

/-- How a command ends: with an exit code, or it could not be run. -/
inductive CommandEnd
  | exited (code : ℤ)
  | failed (err : String)
deriving DecidableEq

/-- What `runUpgrade` finds: `AUTO_DEPLOY_INSTALL_URL` (empty if it is not set), whether `curl` is
in the path, the user and what becomes of a command. -/
structure UpgradeHost where
  installURL : String
  curl : Bool
  euid : ℕ
  run : List String → CommandEnd

/-- What `runUpgrade` writes, runs and returns. -/
structure UpgradeOutcome where
  stdout : String
  stderr : String
  commands : List (List String)
  code : ℤ
deriving DecidableEq

def printUpgradeUsage : String :=
  "Usage: auto-deploy upgrade [vX.Y.Z]

Upgrades the installed auto-deploy binary in place by re-running the install
script. Defaults to the latest stable GitHub release; pass a version tag to pin
a specific release.

Preserves /etc/auto-deploy.env and the existing database; overwrites the binary
and systemd unit, then restarts the service. Requires root (use sudo) and curl.

Override the script URL with AUTO_DEPLOY_INSTALL_URL.
"

def shellQuote (s : String) : String := "'" ++ GoStrings.replaceAll s '\'' "'\\''" ++ "'"

def buildUpgradePipeline (scriptURL : String) (args : List String) : Except String String :=
  if 1 < args.length then
    .error "upgrade: too many arguments (want at most a version tag, e.g. v1.2.3)"
  else
    let pipeline := "curl -fsSL " ++ shellQuote scriptURL ++ " | sh -s --"
    match args with
    | [tag] => .ok (pipeline ++ " " ++ shellQuote tag)
    | _ => .ok pipeline

def UpgradeHost.scriptURL (host : UpgradeHost) : String :=
  if host.installURL = "" then defaultUpgradeScriptURL else host.installURL

def runUpgrade (host : UpgradeHost) (args : List String) : UpgradeOutcome :=
  if args.any fun a => a == "-h" || a == "--help" then ⟨printUpgradeUsage, "", [], 0⟩
  else match buildUpgradePipeline host.scriptURL args with
    | .error err => ⟨"", err ++ "\n" ++ printUpgradeUsage, [], 2⟩
    | .ok pipeline =>
      if !host.curl then ⟨"", "upgrade: curl is required but was not found in PATH\n", [], 1⟩
      else
        let rootHint := if host.euid = 0 then "" else
          "upgrade: writing /opt/auto-deploy and restarting the service needs root; " ++
            "re-run with sudo if this fails.\n"
        let stderr := rootHint ++ "Upgrading auto-deploy via " ++ host.scriptURL ++ "\n"
        let command := ["sh", "-c", pipeline]
        match host.run command with
        | .exited code => ⟨"", stderr, [command], code⟩
        | .failed err => ⟨"", stderr ++ "upgrade failed: " ++ err ++ "\n", [command], 1⟩

section Pipeline

open ShellSyntax

theorem shellQuote_toList (s : String) : (shellQuote s).toList = quoted s.toList := by
  simp [shellQuote, quoted, GoStrings.replaceAll]

/-- The words in front of the script's URL. -/
theorem lex_curl : lex initial "curl -fsSL ".toList =
    ⟨.plain, [.word ("curl".toList.map fun c => (c, false)),
      .word ("-fsSL".toList.map fun c => (c, false))], none⟩ := by
  decide

theorem lex_sh (toks : List Token) (parts : List WordPart) :
    lex ⟨.plain, toks, some (.word parts)⟩ " | sh -s --".toList =
      ⟨.plain, toks ++ [.word parts, .operator ['|'], .word ("sh".toList.map fun c => (c, false)),
        .word ("-s".toList.map fun c => (c, false))],
        some (.word ("--".toList.map fun c => (c, false)))⟩ := by
  simp [step, stepPlain, isOperatorChar, isBlank, Lexer.append, Lexer.inWord, Lexer.parts,
    Lexer.delimit]

theorem field_plain {text : List Char} (h : text.all fun c => !isActive c) :
    field (text.map fun c => (c, false)) = some (String.ofList text) := by
  have hactive : (text.map fun c => (c, false)).all
      (fun part => part.2 || !isActive part.1) = true := by
    simpa [List.all_map, Function.comp_def] using h
  simp [field, hactive, List.map_map, Function.comp_def]

/-- An unquoted word that starts no expansion. -/
def bare (text : String) : Token := .word (text.toList.map fun c => (c, false))

theorem commandsFrom_bare {words : List String} {text : String} {rest : List Token}
    (h : text.toList.all fun c => !isActive c) :
    commandsFrom words (bare text :: rest) = commandsFrom (words ++ [text]) rest := by
  simp [bare, commandsFrom, field_plain h]

theorem commandsFrom_quoted {words : List String} {text : String} {rest : List Token} :
    commandsFrom words (.word (text.toList.map fun c => (c, true)) :: rest) =
      commandsFrom (words ++ [text]) rest := by
  simp [commandsFrom, field_quoted]

/-- The words of `curl` and of `sh`, with further words at the end. -/
theorem commandsFrom_upgrade (scriptURL : String) (rest : List Token) :
    commandsFrom [] (bare "curl" :: bare "-fsSL" ::
        .word (scriptURL.toList.map fun c => (c, true)) :: .operator ['|'] :: bare "sh" ::
        bare "-s" :: bare "--" :: rest) =
      (commandsFrom ["sh", "-s", "--"] rest).map (["curl", "-fsSL", scriptURL] :: ·) := by
  have hcurl : isCommand ["curl", "-fsSL", scriptURL] = true := rfl
  rw [commandsFrom_bare (by decide), commandsFrom_bare (by decide), commandsFrom_quoted]
  simp only [List.nil_append, List.cons_append, commandsFrom]
  rw [if_pos ⟨by decide, hcurl⟩, commandsFrom_bare (by decide), commandsFrom_bare (by decide),
    commandsFrom_bare (by decide)]
  exact Option.map_eq_bind.symm

/-- Whatever the URL and the tag contain, the shell reads them as one word each. -/
theorem pipeline_buildUpgradePipeline {scriptURL script : String} {args : List String}
    (h : buildUpgradePipeline scriptURL args = .ok script) :
    pipeline script = some [["curl", "-fsSL", scriptURL], "sh" :: "-s" :: "--" :: args] := by
  have hsh : ∀ args, isCommand ("sh" :: "-s" :: "--" :: args) = true := fun _ => rfl
  have hread : lex initial ("curl -fsSL " ++ shellQuote scriptURL ++ " | sh -s --").toList =
      ⟨.plain, [bare "curl", bare "-fsSL", .word (scriptURL.toList.map fun c => (c, true)),
        .operator ['|'], bare "sh", bare "-s"], some (bare "--")⟩ := by
    simp only [String.toList_append, lex_append, shellQuote_toList, lex_curl, lex_quoted, lex_sh]
    rfl
  unfold buildUpgradePipeline at h
  split at h
  next => cases h
  next hlen =>
    match args with
    | [] =>
      cases h
      simp only [pipeline, tokens, hread]
      exact (commandsFrom_upgrade scriptURL []).trans (by simp [commandsFrom, hsh])
    | [tag] =>
      cases h
      have htag : lex initial ("curl -fsSL " ++ shellQuote scriptURL ++ " | sh -s --" ++ " " ++
          shellQuote tag).toList = ⟨.plain, [bare "curl", bare "-fsSL",
            .word (scriptURL.toList.map fun c => (c, true)), .operator ['|'], bare "sh", bare "-s",
            bare "--"], some (.word (tag.toList.map fun c => (c, true)))⟩ := by
        rw [String.toList_append, String.toList_append, lex_append, lex_append, hread,
          shellQuote_toList]
        exact lex_quoted tag.toList
      simp only [pipeline, tokens, htag]
      refine (commandsFrom_upgrade scriptURL [.word (tag.toList.map fun c => (c, true))]).trans ?_
      rw [commandsFrom_quoted]
      simp [commandsFrom, hsh]
    | _ :: _ :: _ => simp at hlen

end Pipeline

/-- The upgrade is asked for, without help and with one tag at most, where `curl` is there. -/
def UpgradeHost.Upgrades (host : UpgradeHost) (args : List String) : Prop :=
  "-h" ∉ args ∧ "--help" ∉ args ∧ args.length ≤ 1 ∧ host.curl = true

theorem runUpgrade_commands (host : UpgradeHost) (args : List String) :
    (runUpgrade host args).commands = [] ∧ ¬host.Upgrades args ∨
    ∃ script, buildUpgradePipeline host.scriptURL args = .ok script ∧
      (runUpgrade host args).commands = [["sh", "-c", script]] ∧ host.Upgrades args := by
  unfold runUpgrade
  split
  next hhelp =>
    left
    refine ⟨rfl, fun h => ?_⟩
    simp only [List.any_eq_true, Bool.or_eq_true, beq_iff_eq] at hhelp
    obtain ⟨arg, harg, rfl | rfl⟩ := hhelp
    · exact h.1 harg
    · exact h.2.1 harg
  next hhelp =>
    have hlen : (∃ err, buildUpgradePipeline host.scriptURL args = .error err) ↔
        1 < args.length := by
      unfold buildUpgradePipeline
      by_cases h : 1 < args.length
      · simp [h]
      · rw [if_neg h]
        dsimp only
        split <;> simp [h]
    split
    next err herr =>
      have hmany := hlen.mp ⟨err, herr⟩
      left
      refine ⟨rfl, fun h => ?_⟩
      have hone := h.2.2.1
      omega
    next script hscript =>
      have hone : args.length ≤ 1 := by
        by_contra hmany
        obtain ⟨err, herr⟩ := hlen.mpr (by omega)
        simp [herr] at hscript
      cases hcurl : host.curl with
      | false =>
        left
        exact ⟨by simp, fun h => by simp [h.2.2.2] at hcurl⟩
      | true =>
        right
        refine ⟨script, hscript, ?_, ?_, ?_, hone, hcurl⟩
        · simp only [Bool.not_true, Bool.false_eq_true, ↓reduceIte]
          split <;> rfl
        · exact fun h => hhelp (List.any_eq_true.mpr ⟨"-h", h, by decide⟩)
        · exact fun h => hhelp (List.any_eq_true.mpr ⟨"--help", h, by decide⟩)

/-- Whatever the environment's URL and the arguments are, an upgrade runs one command, which is a
script in which the shell finds exactly `curl` with that URL, and `sh` with that tag; and what is no
upgrade runs nothing. -/
theorem upgrade_contained (host : UpgradeHost) (args : List String) :
    ((runUpgrade host args).commands = [] ∧ ¬host.Upgrades args) ∨
    ∃ script, (runUpgrade host args).commands = [["sh", "-c", script]] ∧ host.Upgrades args ∧
      ShellSyntax.pipeline script =
        some [["curl", "-fsSL", host.scriptURL], "sh" :: "-s" :: "--" :: args] := by
  obtain hnone | ⟨script, hscript, hone, hup⟩ := runUpgrade_commands host args
  · exact Or.inl hnone
  · exact Or.inr ⟨script, hone, hup, pipeline_buildUpgradePipeline hscript⟩

end AutoDeploy
