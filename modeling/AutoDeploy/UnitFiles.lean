import AutoDeploy.ServiceUnit

namespace AutoDeploy

/-- The files by their paths. -/
abbrev UnitFiles := String → Option (List UInt8)

/-- `os.WriteFile`: it opens and truncates, and then it writes. An error comes from the opening,
or after some bytes. -/
inductive WriteAnswer
  | written
  | unopened (text : String)
  | cut (bytes : ℕ) (text : String)
deriving DecidableEq

/-- What one call of `ApplyServiceUnit` finds outside: the file that it reads may be unreadable,
and `systemctl` may fail. -/
structure UnitAnswer where
  readFault : Option String
  write : WriteAnswer
  daemonReload : Option String
  enable : Option String
deriving DecidableEq

namespace UnitAnswer

/-- A working disk, and a working service manager. -/
def working : UnitAnswer := ⟨none, .written, none, none⟩

end UnitAnswer

inductive ApplyError
  | invalidName (text : String)
  | refuseOverwrite
  | failed (text : String)
deriving DecidableEq

def systemdUnitDir : String := "/etc/systemd/system"

/-- `filepath.Join` of the unit directory and a file name. -/
def unitTargetPath (fileName : String) : String :=
  GoStrings.filepathClean (systemdUnitDir ++ "/" ++ fileName).toList

/-- `bytes.Cut` at the first newline. -/
def firstLine (content : List UInt8) : List UInt8 := content.takeWhile (· ≠ 10)

def writeUnitFile (files : UnitFiles) (path : String) (content : List UInt8) :
    WriteAnswer → Option String × UnitFiles
  | .written => (none, Function.update files path (some content))
  | .unopened text => (some text, files)
  | .cut bytes text => (some text, Function.update files path (some (content.take bytes)))

/-- Whether the guard of `ApplyServiceUnit` lets a call write. -/
def checkMarker (answer : UnitAnswer) (existing : Option (List UInt8)) : Except ApplyError Unit :=
  match answer.readFault with
  | some text => .error (.failed ("service_unit: read existing unit file: " ++ text))
  | none =>
    match existing with
    | none => .ok ()
    | some content =>
      if firstLine content ≠ GoStrings.bytes generatedUnitMarker then .error .refuseOverwrite
      else .ok ()

/-- The two `systemctl` commands. -/
def enableUnit (answer : UnitAnswer) : Except ApplyError Unit :=
  match answer.daemonReload with
  | some text => .error (.failed ("service_unit: daemon-reload: " ++ text))
  | none =>
    match answer.enable with
    | some text => .error (.failed ("service_unit: enable: " ++ text))
    | none => .ok ()

/-- `ApplyServiceUnit`. -/
def applyServiceUnit (isPrint : Char → Bool) (app : UnitApp) (answer : UnitAnswer)
    (files : UnitFiles) : Except ApplyError Unit × UnitFiles :=
  match serviceUnitBaseAndFile isPrint app.serviceName with
  | .error text => (.error (.invalidName text), files)
  | .ok (base, fileName) =>
    match validateServiceUnitName isPrint base with
    | .error text => (.error (.invalidName text), files)
    | .ok () =>
      let targetPath := unitTargetPath fileName
      match checkMarker answer (files targetPath) with
      | .error e => (.error e, files)
      | .ok () =>
        let content := GoStrings.bytes (renderServiceUnit isPrint app)
        match writeUnitFile files targetPath content answer.write with
        | (some text, after) =>
          (.error (.failed ("service_unit: write unit file: " ++ text)), after)
        | (none, after) => (enableUnit answer, after)

/-- The files after a sequence of calls. -/
def applyAll (isPrint : Char → Bool) (files : UnitFiles) (calls : List (UnitApp × UnitAnswer)) :
    UnitFiles :=
  calls.foldl (fun files call => (applyServiceUnit isPrint call.1 call.2 files).2) files

/-- The path of the unit of an app. -/
def unitPath (isPrint : Char → Bool) (app : UnitApp) : Option String :=
  match serviceUnitBaseAndFile isPrint app.serviceName with
  | .error _ => none
  | .ok (_, fileName) => some (unitTargetPath fileName)

end AutoDeploy
