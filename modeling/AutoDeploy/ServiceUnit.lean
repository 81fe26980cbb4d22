import AutoDeploy.AppSettings
import AutoDeploy.GoStrings

namespace AutoDeploy

/-- What `RenderServiceUnit` and its callers read of an app. -/
structure UnitApp where
  name : String
  serviceName : String
  binaryPath : String
  args : List String
  envVars : List EnvVar
deriving DecidableEq

def generatedUnitMarker : String :=
  "# Generated by auto-deploy -- safe to regenerate; hand edits will be lost on next apply"

/-- `strconv.IsPrint` on ASCII. -/
def isPrintASCII (r : Char) : Bool := 0x20 ≤ r.val && r.val < 0x7f

/-- A character of `serviceUnitNameRe`, which is `^[a-zA-Z0-9_-]+$`. -/
def isUnitNameChar (r : Char) : Bool := r.isAlphanum || r == '_' || r == '-'

def maxServiceUnitNameLen : ℕ := 100

/-- `isPrint` is `strconv.IsPrint`, by which `%q` escapes. -/
def validateServiceUnitName (isPrint : Char → Bool) (name : String) : Except String Unit :=
  if name = "" then .error "service unit name must not be empty"
  else if maxServiceUnitNameLen < name.utf8ByteSize then
    .error ("service unit name too long: " ++ toString name.utf8ByteSize ++ " characters, max " ++
      toString maxServiceUnitNameLen)
  else if GoStrings.hasPrefix name "-" then
    .error ("service unit name " ++ GoStrings.quote isPrint name ++
      " must not start with a hyphen")
  else if !name.toList.all isUnitNameChar then
    .error ("service unit name " ++ GoStrings.quote isPrint name ++
      " is invalid: only letters, digits, underscore, and hyphen are allowed")
  else .ok ()

/-- The validated base name and the name of the unit file. -/
def serviceUnitBaseAndFile (isPrint : Char → Bool) (serviceName : String) :
    Except String (String × String) := do
  let base := GoStrings.trimSuffix serviceName ".service"
  validateServiceUnitName isPrint base
  return (base, base ++ ".service")

def cleanSystemdValue (s : String) : String :=
  GoStrings.trimSpace (.ofList (s.toList.filter fun r => !(r.val < 0x20 && r != '\t')))

/-- `systemdArgEscaper`. -/
def escapeSystemdArg (s : String) : String :=
  .ofList (s.toList.flatMap fun r => if r = '%' ∨ r = '$' then [r, r] else [r])

def renderExecArgs (isPrint : Char → Bool) (args : List String) : String :=
  String.join (args.map fun raw =>
    " " ++ GoStrings.quote isPrint (escapeSystemdArg (cleanSystemdValue raw)))

/-- The loop over the variables of `RenderServiceUnit`. -/
def renderEnvVars (isPrint : Char → Bool) : List EnvVar → String
  | [] => ""
  | env :: rest =>
    let name := cleanSystemdValue env.name
    if name = "" then renderEnvVars isPrint rest
    else "Environment=" ++ name ++ "=" ++ GoStrings.quote isPrint (cleanSystemdValue env.value) ++
      "\n" ++ renderEnvVars isPrint rest

def renderServiceUnit (isPrint : Char → Bool) (app : UnitApp) : String :=
  let workingDir := GoStrings.filepathDir app.binaryPath
  generatedUnitMarker ++ "\n" ++
  "[Unit]\nDescription=" ++ cleanSystemdValue app.name ++
    " (managed by auto-deploy)\nAfter=network.target\n\n" ++
  "[Service]\nExecStart=" ++ cleanSystemdValue app.binaryPath ++
    renderExecArgs isPrint app.args ++ "\nWorkingDirectory=" ++ workingDir ++
    "\nRestart=on-failure\nRestartSec=5\n" ++
  renderEnvVars isPrint app.envVars ++
  "\n" ++
  "[Install]\nWantedBy=multi-user.target\n"

/-- `PreviewServiceUnit`. -/
def previewServiceUnit (isPrint : Char → Bool) (app : UnitApp) : Except String String := do
  let _ ← serviceUnitBaseAndFile isPrint app.serviceName
  return renderServiceUnit isPrint app

theorem previewServiceUnit_ok {isPrint : Char → Bool} {app : UnitApp} {text : String}
    (h : previewServiceUnit isPrint app = .ok text) : text = renderServiceUnit isPrint app := by
  unfold previewServiceUnit at h
  cases hname : serviceUnitBaseAndFile isPrint app.serviceName with
  | error reason => simp [hname, bind, Except.bind] at h
  | ok names => simpa [hname, bind, Except.bind, pure, Except.pure, eq_comm] using h

/-- A cleaned value keeps no control character but the tab. -/
theorem cleanSystemdValue_char {s : String} {r : Char} (h : r ∈ (cleanSystemdValue s).toList) :
    (!(r.val < 0x20 && r != '\t')) = true := by
  unfold cleanSystemdValue GoStrings.trimSpace at h
  simp only [String.toList_ofList, List.mem_reverse] at h
  have hback := (List.dropWhile_sublist _).subset h
  rw [List.mem_reverse] at hback
  exact (List.mem_filter.mp ((List.dropWhile_sublist _).subset hback)).2

theorem cleanSystemdValue_noNewline (s : String) : '\n' ∉ (cleanSystemdValue s).toList := by
  intro hm
  have hchar := cleanSystemdValue_char hm
  revert hchar
  decide

/-- An argument is escaped by doubling, which brings no character in. -/
theorem mem_escapeSystemdArg {s : String} {c : Char} (h : c ∈ (escapeSystemdArg s).toList) :
    c ∈ s.toList := by
  unfold escapeSystemdArg at h
  rw [String.toList_ofList] at h
  obtain ⟨r, hr, hrune⟩ := List.mem_flatMap.mp h
  split at hrune
  next => simp at hrune; exact hrune ▸ hr
  next => simp at hrune; exact hrune ▸ hr

theorem renderExecArgs_noNewline {isPrint : Char → Bool} (args : List String) :
    '\n' ∉ (renderExecArgs isPrint args).toList := by
  have harg : ∀ raw, '\n' ∉
      (GoStrings.quote isPrint (escapeSystemdArg (cleanSystemdValue raw))).toList := fun raw =>
    GoStrings.quote_noNewline fun hm =>
      cleanSystemdValue_noNewline raw (mem_escapeSystemdArg hm)
  simp [renderExecArgs, String.toList_join, harg]

/-- The last argument ends in its quote. -/
theorem renderExecArgs_getLast {isPrint : Char → Bool} {args : List String} (h : args ≠ []) :
    (renderExecArgs isPrint args).toList.getLast? = some '"' := by
  obtain ⟨front, last, rfl⟩ := (List.eq_nil_or_concat args).resolve_left h
  have hargs : (renderExecArgs isPrint (front ++ [last])).toList =
      ((renderExecArgs isPrint front).toList ++ [' ']) ++
        (GoStrings.quote isPrint (escapeSystemdArg (cleanSystemdValue last))).toList := by
    simp [renderExecArgs, String.toList_join]
  rw [List.concat_eq_append, hargs, List.getLast?_append, GoStrings.quote_getLast]
  rfl

end AutoDeploy
