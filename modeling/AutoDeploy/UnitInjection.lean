import AutoDeploy.ServiceUnit
import AutoDeploy.UnitSyntax

namespace AutoDeploy

open UnitSyntax

inductive UnitLine where
  | comment (text : String)
  | header (name : String)
  | assignment (key value : String)
  | blank
deriving DecidableEq

namespace UnitLine

def text : UnitLine → String
  | comment text => text
  | header name => "[" ++ name ++ "]"
  | assignment key value => key ++ "=" ++ value
  | blank => ""

end UnitLine

/-- The line of a variable, if its cleaned name is not empty. -/
def environmentLine (isPrint : Char → Bool) (env : EnvVar) : Option UnitLine :=
  let name := cleanSystemdValue env.name
  if name = "" then none
  else some (.assignment "Environment"
    (name ++ "=" ++ GoStrings.quote isPrint (cleanSystemdValue env.value)))

/-- The lines that a unit is meant to have, with the values of the app in their places. -/
def unitTemplate (isPrint : Char → Bool) (app : UnitApp) : List UnitLine :=
  [.comment generatedUnitMarker,
    .header "Unit",
    .assignment "Description" (cleanSystemdValue app.name ++ " (managed by auto-deploy)"),
    .assignment "After" "network.target",
    .blank,
    .header "Service",
    .assignment "ExecStart" (cleanSystemdValue app.binaryPath ++ renderExecArgs isPrint app.args),
    .assignment "WorkingDirectory" (GoStrings.filepathDir app.binaryPath),
    .assignment "Restart" "on-failure",
    .assignment "RestartSec" "5"] ++
  app.envVars.filterMap (environmentLine isPrint) ++
  [.blank, .header "Install", .assignment "WantedBy" "multi-user.target"]

/-- A name that keeps its line from being a comment. -/
def IsDirective (key : String) : Prop := key ≠ "" ∧ key.toList.all Char.isAlpha = true

instance (key : String) : Decidable (IsDirective key) := inferInstanceAs (Decidable (_ ∧ _))

theorem comment_marker_oneLine : OneLine (UnitLine.comment generatedUnitMarker).text.toList := by
  refine ⟨?_, Or.inl ?_⟩ <;> decide +kernel

theorem assignment_not_comment {key value : String} (hkey : IsDirective key) :
    isComment (UnitLine.assignment key value).text.toList = false := by
  obtain ⟨c, rest, hlist⟩ := List.exists_cons_of_ne_nil (l := key.toList) (by simpa using hkey.1)
  have hc : c.isAlpha = true := List.all_eq_true.mp hkey.2 c (by simp [hlist])
  have hspace : c ≠ ' ' ∧ c ≠ '\t' ∧ c ≠ '#' ∧ c ≠ ';' := by
    refine ⟨?_, ?_, ?_, ?_⟩ <;> (intro he; rw [he] at hc; revert hc; decide)
  simp [UnitLine.text, hlist, isComment, hspace]

theorem assignment_oneLine {key value : String} (hkey : IsDirective key) :
    OneLine (UnitLine.assignment key value).text.toList ↔
      '\n' ∉ value.toList ∧ value.toList.getLast? ≠ some '\\' := by
  have hcomment := @assignment_not_comment key value hkey
  have hnewline : '\n' ∉ key.toList := by
    intro hm
    have halpha := List.all_eq_true.mp hkey.2 '\n' hm
    revert halpha
    decide
  have hlast : (UnitLine.assignment key value).text.toList.getLast? =
      some (value.toList.getLast?.getD '=') := by
    simp [UnitLine.text, List.getLast?_append, List.getLast?_cons]
  unfold OneLine
  rw [hcomment, hlast]
  cases hvalue : value.toList.getLast? <;> simp [UnitLine.text, hnewline]

theorem renderEnvVars_unlines {isPrint : Char → Bool} (envVars : List EnvVar) :
    renderEnvVars isPrint envVars =
      unlines ((envVars.filterMap (environmentLine isPrint)).map UnitLine.text) := by
  induction envVars with
  | nil => rfl
  | cons env rest ih =>
    unfold renderEnvVars
    by_cases hname : cleanSystemdValue env.name = ""
    · have hline : environmentLine isPrint env = none := by simp [environmentLine, hname]
      simp [hname, hline, ih]
    · have hline : environmentLine isPrint env = some (.assignment "Environment"
          (cleanSystemdValue env.name ++ "=" ++
            GoStrings.quote isPrint (cleanSystemdValue env.value))) := by
        simp [environmentLine, hname]
      simp [hname, hline, ih, unlines, UnitLine.text, String.append_assoc]

theorem renderServiceUnit_unlines {isPrint : Char → Bool} (app : UnitApp) :
    renderServiceUnit isPrint app =
      unlines ((unitTemplate isPrint app).map UnitLine.text) := by
  rw [renderServiceUnit, renderEnvVars_unlines]
  apply String.toList_injective
  simp [unitTemplate, UnitLine.text, unlines_toList]

theorem header_oneLine {name : String} (hname : '\n' ∉ name.toList) :
    OneLine (UnitLine.header name).text.toList := by
  refine ⟨by simpa [UnitLine.text] using hname, Or.inr ?_⟩
  simp [UnitLine.text, List.getLast?_append, List.getLast?_cons]

theorem environmentLine_oneLine {isPrint : Char → Bool} {env : EnvVar} {line : UnitLine}
    (hline : environmentLine isPrint env = some line) : OneLine line.text.toList := by
  unfold environmentLine at hline
  dsimp only at hline
  split at hline
  next => contradiction
  next =>
    cases hline
    have hvalue : '\n' ∉ (GoStrings.quote isPrint (cleanSystemdValue env.value)).toList :=
      GoStrings.quote_noNewline (cleanSystemdValue_noNewline env.value)
    have hname := cleanSystemdValue_noNewline env.name
    rw [assignment_oneLine (by decide +kernel)]
    refine ⟨by simp [hname, hvalue], ?_⟩
    rw [String.toList_append, List.getLast?_append, GoStrings.quote_getLast]
    simp

/-- The command line is one line, unless an app without arguments has a backslash at its end. -/
theorem execStart_oneLine {isPrint : Char → Bool} {app : UnitApp} :
    OneLine (UnitLine.assignment "ExecStart"
        (cleanSystemdValue app.binaryPath ++ renderExecArgs isPrint app.args)).text.toList ↔
      (app.args = [] → (cleanSystemdValue app.binaryPath).toList.getLast? ≠ some '\\') := by
  have hbinary := cleanSystemdValue_noNewline app.binaryPath
  have hargs := @renderExecArgs_noNewline isPrint app.args
  have hnewline : '\n' ∉
      (cleanSystemdValue app.binaryPath ++ renderExecArgs isPrint app.args).toList := by
    simp [hbinary, hargs]
  rw [assignment_oneLine (by decide +kernel), and_iff_right hnewline]
  by_cases hempty : app.args = []
  · simp [hempty, renderExecArgs]
  · have hlast := @renderExecArgs_getLast isPrint app.args hempty
    have hend : (cleanSystemdValue app.binaryPath ++ renderExecArgs isPrint
        app.args).toList.getLast? = some '"' := by
      rw [String.toList_append, List.getLast?_append, hlast]
      rfl
    rw [hend]
    simp [hempty]

theorem unitTemplate_oneLine {isPrint : Char → Bool} {app : UnitApp} :
    (∀ line ∈ (unitTemplate isPrint app).map UnitLine.text, OneLine line.toList) ↔
      ('\n' ∉ (GoStrings.filepathDir app.binaryPath).toList ∧
        (GoStrings.filepathDir app.binaryPath).toList.getLast? ≠ some '\\') ∧
      (app.args = [] → (cleanSystemdValue app.binaryPath).toList.getLast? ≠ some '\\') := by
  have hfixed : ∀ key value : String, IsDirective key → '\n' ∉ value.toList →
      value.toList.getLast? ≠ some '\\' →
      OneLine (UnitLine.assignment key value).text.toList := fun key value hkey hnewline hlast =>
    (assignment_oneLine hkey).mpr ⟨hnewline, hlast⟩
  have hblank : OneLine UnitLine.blank.text.toList := ⟨by decide, Or.inr (by decide +kernel)⟩
  have hname := cleanSystemdValue_noNewline app.name
  have hdir := @assignment_oneLine "WorkingDirectory" (GoStrings.filepathDir app.binaryPath)
    (by decide +kernel)
  rw [← @execStart_oneLine isPrint app, ← hdir, List.forall_mem_map]
  constructor
  · intro h
    exact ⟨h _ (by simp [unitTemplate]), h _ (by simp [unitTemplate])⟩
  · intro h line hm
    simp only [unitTemplate, List.mem_append, List.mem_cons, List.not_mem_nil, or_false] at hm
    rcases hm with (hfirst | henv) | hinstall
    · rcases hfirst with rfl | rfl | rfl | rfl | rfl | rfl | rfl | rfl | rfl | rfl
      · exact comment_marker_oneLine
      · exact header_oneLine (by decide +kernel)
      · exact hfixed _ _ (by decide +kernel) (by simp [hname]) (by simp [List.getLast?_append])
      · exact hfixed _ _ (by decide +kernel) (by decide +kernel) (by decide +kernel)
      · exact hblank
      · exact header_oneLine (by decide +kernel)
      · exact h.2
      · exact h.1
      · exact hfixed _ _ (by decide +kernel) (by decide +kernel) (by decide +kernel)
      · exact hfixed _ _ (by decide +kernel) (by decide +kernel) (by decide +kernel)
    · obtain ⟨env, _, hline⟩ := List.mem_filterMap.mp henv
      exact environmentLine_oneLine hline
    · rcases hinstall with rfl | rfl | rfl
      · exact hblank
      · exact header_oneLine (by decide +kernel)
      · exact hfixed _ _ (by decide +kernel) (by decide +kernel) (by decide +kernel)

theorem rendered_exact_iff {isPrint : Char → Bool} {app : UnitApp} :
    logicalLines (renderServiceUnit isPrint app) =
        (unitTemplate isPrint app).map UnitLine.text ↔
      ('\n' ∉ (GoStrings.filepathDir app.binaryPath).toList ∧
        (GoStrings.filepathDir app.binaryPath).toList.getLast? ≠ some '\\') ∧
      (app.args = [] → (cleanSystemdValue app.binaryPath).toList.getLast? ≠ some '\\') := by
  rw [renderServiceUnit_unlines, logicalLines_unlines, unitTemplate_oneLine]

/-- A unit has the lines of its template exactly where the directory of the binary, which is not
cleaned, has no newline and no backslash at its end. -/
theorem unit_exact_iff {isPrint : Char → Bool} {app : UnitApp} {text : String}
    (hpreview : previewServiceUnit isPrint app = .ok text) :
    logicalLines text = (unitTemplate isPrint app).map UnitLine.text ↔
      ('\n' ∉ (GoStrings.filepathDir app.binaryPath).toList ∧
        (GoStrings.filepathDir app.binaryPath).toList.getLast? ≠ some '\\') ∧
      (app.args = [] → (cleanSystemdValue app.binaryPath).toList.getLast? ≠ some '\\') := by
  have htext := previewServiceUnit_ok hpreview
  rw [htext, rendered_exact_iff]

theorem unit_exact_iff_bot :
    logicalLines (renderServiceUnit isPrintASCII
        ⟨"bot", "bot.service", "/opt/bot/bot", ["--ratio=100%"], [⟨"TOKEN", "a\nb"⟩]⟩) =
      (unitTemplate isPrintASCII
        ⟨"bot", "bot.service", "/opt/bot/bot", ["--ratio=100%"], [⟨"TOKEN", "a\nb"⟩]⟩).map
          UnitLine.text :=
  (@unit_exact_iff isPrintASCII
    ⟨"bot", "bot.service", "/opt/bot/bot", ["--ratio=100%"], [⟨"TOKEN", "a\nb"⟩]⟩ _ rfl).mpr
    ⟨by decide +kernel, by decide +kernel⟩

theorem injectedDirectory_runs :
    let app : UnitApp := ⟨"bot", "bot.service", "/opt/x\nExecStartPre=/bin/evil/bot", [], []⟩
    ∃ text, previewServiceUnit isPrintASCII app = .ok text ∧
      "ExecStartPre=/bin/evil" ∈ logicalLines text ∧
      logicalLines text ≠ (unitTemplate isPrintASCII app).map UnitLine.text := by
  refine ⟨_, rfl, ?_, ?_⟩
  · rw [renderServiceUnit_unlines, logicalLines, unlines_toList]
    decide +kernel
  · intro h
    have hnewline := (rendered_exact_iff.mp h).1.1
    revert hnewline
    decide +kernel

end AutoDeploy
