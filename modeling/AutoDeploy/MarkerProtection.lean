import AutoDeploy.UnitFiles
import AutoDeploy.UnitOwnership

namespace AutoDeploy

/-- A path that a call may write. -/
def IsUnitPath (path : String) : Prop :=
  ∃ base : String, base ≠ "" ∧ (∀ r ∈ base.toList, isUnitNameChar r = true) ∧
    path = systemdUnitDir ++ "/" ++ base ++ ".service"

/-- What the marker is for, between two states of a run. A file with another first line stays as
it was, only unit files are written, and a file that was not there at the start of the run can be
written again. -/
structure Protected (isPrint : Char → Bool) (start before files : UnitFiles) : Prop where
  kept : ∀ path bytes, before path = some bytes →
    firstLine bytes ≠ GoStrings.bytes generatedUnitMarker → files path = some bytes
  onlyUnits : ∀ path, files path ≠ before path → IsUnitPath path
  reapplied : ∀ path, start path = none → files path ≠ none → ∀ app,
    unitPath isPrint app = some path →
    (applyServiceUnit isPrint app .working files).1 = .ok ()

/-- A call that writes a file which was not there at the start, and stops within its marker. -/
def CutsOwn (isPrint : Char → Bool) (start files : UnitFiles) (call : UnitApp × UnitAnswer) :
    Prop :=
  ∃ path bytes text, unitPath isPrint call.1 = some path ∧ start path = none ∧
    checkMarker call.2 (files path) = .ok () ∧ call.2.write = .cut bytes text ∧
    bytes < (GoStrings.bytes generatedUnitMarker).length

theorem marker_noNewline : 10 ∉ GoStrings.bytes generatedUnitMarker := by decide +kernel

theorem renderServiceUnit_bytes (isPrint : Char → Bool) (app : UnitApp) :
    ∃ rest, GoStrings.bytes (renderServiceUnit isPrint app) =
      GoStrings.bytes generatedUnitMarker ++ 10 :: rest := by
  have hnewline : GoStrings.bytes "\n" = [10] := by decide +kernel
  unfold renderServiceUnit
  simp only [String.append_assoc, GoStrings.bytes_append, hnewline, List.singleton_append]
  exact ⟨_, rfl⟩

theorem firstLine_line {line rest : List UInt8} (h : 10 ∉ line) :
    firstLine (line ++ 10 :: rest) = line := by
  have hline : ∀ b ∈ line, (decide (b ≠ 10)) = true := by
    intro b hb
    rw [decide_eq_true_eq]
    intro he
    exact h (he ▸ hb)
  rw [firstLine, List.takeWhile_append_of_pos hline]
  simp

theorem firstLine_self {line : List UInt8} (h : 10 ∉ line) : firstLine line = line := by
  rw [firstLine, ← List.append_nil line, List.takeWhile_append_of_pos, List.takeWhile_nil]
  intro b hb
  rw [decide_eq_true_eq]
  intro he
  exact h (he ▸ hb)

/-- What is left of a unit has the marker exactly if it has all of it. -/
theorem firstLine_take {isPrint : Char → Bool} {app : UnitApp} {n : ℕ} :
    firstLine ((GoStrings.bytes (renderServiceUnit isPrint app)).take n) =
        GoStrings.bytes generatedUnitMarker ↔
      (GoStrings.bytes generatedUnitMarker).length ≤ n := by
  obtain ⟨rest, hcontent⟩ := renderServiceUnit_bytes isPrint app
  rw [hcontent]
  generalize hmarker : GoStrings.bytes generatedUnitMarker = marker
  have hnewline : 10 ∉ marker := hmarker ▸ marker_noNewline
  rcases Nat.lt_or_ge n marker.length with hshort | hlong
  · have htake : (marker ++ 10 :: rest).take n = marker.take n :=
      List.take_append_of_le_length (by omega)
    have hpart : 10 ∉ marker.take n := fun hm => hnewline (List.mem_of_mem_take hm)
    rw [htake, firstLine_self hpart]
    constructor
    · intro he
      have hlength := congrArg List.length he
      rw [List.length_take] at hlength
      omega
    · intro hle
      omega
  · obtain ⟨more, rfl⟩ : ∃ more, n = marker.length + more := ⟨n - marker.length, by omega⟩
    rw [List.take_length_add_append]
    refine iff_of_true ?_ hlong
    cases more with
    | zero => simpa using firstLine_self hnewline
    | succ more => exact firstLine_line hnewline

/-- What one call does to the files: nothing, or it writes its unit, or a part of it, over
nothing or over its marker. -/
theorem applyServiceUnit_files (isPrint : Char → Bool) (app : UnitApp) (answer : UnitAnswer)
    (files : UnitFiles) :
    (applyServiceUnit isPrint app answer files).2 = files ∨
      ∃ path n, unitPath isPrint app = some path ∧ checkMarker answer (files path) = .ok () ∧
        (applyServiceUnit isPrint app answer files).2 = Function.update files path
          (some ((GoStrings.bytes (renderServiceUnit isPrint app)).take n)) ∧
        (n = (GoStrings.bytes (renderServiceUnit isPrint app)).length ∨
          ∃ text, answer.write = .cut n text) := by
  unfold applyServiceUnit unitPath
  cases hname : serviceUnitBaseAndFile isPrint app.serviceName with
  | error text => exact Or.inl rfl
  | ok unit =>
    dsimp only
    cases validateServiceUnitName isPrint unit.1 with
    | error text => exact Or.inl rfl
    | ok =>
      dsimp only
      cases hcheck : checkMarker answer (files (unitTargetPath unit.2)) with
      | error e => exact Or.inl rfl
      | ok =>
        cases hwrite : answer.write with
        | written =>
          right
          refine ⟨_, _, rfl, hcheck, ?_, Or.inl rfl⟩
          rw [List.take_length]
          rfl
        | unopened text => exact Or.inl rfl
        | cut bytes text => exact Or.inr ⟨_, bytes, rfl, hcheck, rfl, Or.inr ⟨text, rfl⟩⟩

theorem checkMarker_ok {answer : UnitAnswer} {content : List UInt8}
    (h : checkMarker answer (some content) = .ok ()) :
    firstLine content = GoStrings.bytes generatedUnitMarker := by
  unfold checkMarker at h
  split at h
  next => contradiction
  next =>
    dsimp only at h
    split at h
    next => contradiction
    next hmarker => exact not_not.mp hmarker

/-- With a working disk, a call succeeds exactly if it is not refused. -/
theorem applyServiceUnit_working {isPrint : Char → Bool} {app : UnitApp} {files : UnitFiles}
    {path : String} (hpath : unitPath isPrint app = some path) :
    (applyServiceUnit isPrint app .working files).1 = .ok () ↔
      ∀ content, files path = some content →
        firstLine content = GoStrings.bytes generatedUnitMarker := by
  unfold unitPath at hpath
  unfold applyServiceUnit
  cases hname : serviceUnitBaseAndFile isPrint app.serviceName with
  | error text => simp [hname] at hpath
  | ok unit =>
    rw [hname] at hpath
    simp only [Option.some.injEq] at hpath
    simp only [hpath, (serviceUnitBaseAndFile_ok hname).1]
    cases hfile : files path with
    | none => simp [checkMarker, UnitAnswer.working, writeUnitFile, enableUnit]
    | some content =>
      by_cases hmarker : firstLine content = GoStrings.bytes generatedUnitMarker
      · simp [checkMarker, UnitAnswer.working, writeUnitFile, enableUnit, hmarker]
      · simp [checkMarker, UnitAnswer.working, hmarker]

theorem unitTargetPath_eq {name : List Char} (hslash : '/' ∉ name) (hempty : name ≠ [])
    (hdot : name ≠ ['.']) (hdots : name ≠ ['.', '.']) :
    unitTargetPath (String.ofList name) = systemdUnitDir ++ "/" ++ String.ofList name := by
  have hpath : (systemdUnitDir ++ "/" ++ String.ofList name).toList =
      [] ++ '/' :: ("etc".toList ++ '/' :: ("systemd".toList ++
        '/' :: ("system".toList ++ '/' :: name))) := by
    simp [systemdUnitDir]
  have hsplit : GoStrings.splitSlash (systemdUnitDir ++ "/" ++ String.ofList name).toList =
      [[], "etc".toList, "systemd".toList, "system".toList, name] := by
    rw [GoStrings.splitSlash_eq, hpath, GoStrings.splitChars_cons (by simp),
      GoStrings.splitChars_cons (by decide), GoStrings.splitChars_cons (by decide),
      GoStrings.splitChars_cons (by decide), GoStrings.splitChars_single hslash]
  have hclean : GoStrings.cleanSegments true
      [[], "etc".toList, "systemd".toList, "system".toList, name] [] =
      [name, "system".toList, "systemd".toList, "etc".toList] := by
    simp [GoStrings.cleanSegments, hempty, hdot, hdots]
  have hrooted : ((systemdUnitDir ++ "/" ++ String.ofList name).toList.head? == some '/') =
      true := by
    rw [hpath]
    rfl
  rw [unitTargetPath, GoStrings.filepathClean]
  simp only [hrooted, hsplit, hclean, if_true]
  apply String.toList_injective
  simp [systemdUnitDir, List.intercalate]

/-- A call writes to unit files only. -/
theorem unitPath_isUnitPath {isPrint : Char → Bool} {app : UnitApp} {path : String}
    (h : unitPath isPrint app = some path) : IsUnitPath path := by
  unfold unitPath at h
  cases hname : serviceUnitBaseAndFile isPrint app.serviceName with
  | error text => simp [hname] at h
  | ok unit =>
    simp only [hname, Option.some.injEq] at h
    obtain ⟨hvalid, _, hfile⟩ := serviceUnitBaseAndFile_ok hname
    have hchars := validateServiceUnitName_chars hvalid
    have hnonempty : unit.1 ≠ "" := by
      intro he
      rw [he] at hvalid
      simp [validateServiceUnitName] at hvalid
    have hslash : '/' ∉ (unit.1 ++ ".service").toList := by
      rw [String.toList_append, List.mem_append]
      rintro (hm | hm)
      · have hchar := hchars '/' hm
        revert hchar
        decide
      · revert hm
        decide
    have hlength : 8 ≤ (unit.1 ++ ".service").toList.length := by simp
    have hpath := unitTargetPath_eq hslash (by intro he; simp [he] at hlength)
      (by intro he; simp [he] at hlength) (by intro he; simp [he] at hlength)
    rw [String.ofList_toList] at hpath
    refine ⟨unit.1, hnonempty, hchars, ?_⟩
    rw [← h, hfile, hpath, String.append_assoc, String.append_assoc, String.append_assoc]

/-- The files that were not there at the start begin with the marker. -/
def OwnMarked (start files : UnitFiles) : Prop :=
  ∀ path content, start path = none → files path = some content →
    firstLine content = GoStrings.bytes generatedUnitMarker

section Calls

variable {isPrint : Char → Bool} {start files : UnitFiles} {call : UnitApp × UnitAnswer}

theorem ownMarked_step (hmarked : OwnMarked start files)
    (hcut : ¬ CutsOwn isPrint start files call) :
    OwnMarked start (applyServiceUnit isPrint call.1 call.2 files).2 := by
  rcases applyServiceUnit_files isPrint call.1 call.2 files with
    hsame | ⟨path, n, hpath, hcheck, hfiles, hn⟩
  · rwa [hsame]
  · intro other content hstart hcontent
    rw [hfiles] at hcontent
    by_cases he : other = path
    · subst he
      rw [Function.update_self, Option.some.injEq] at hcontent
      rw [← hcontent, firstLine_take]
      obtain ⟨rest, hrest⟩ := renderServiceUnit_bytes isPrint call.1
      rcases hn with rfl | ⟨text, hwrite⟩
      · rw [hrest, List.length_append]
        omega
      · by_contra hshort
        exact hcut ⟨other, n, text, hpath, hstart, hcheck, hwrite, by omega⟩
    · rw [Function.update_of_ne he] at hcontent
      exact hmarked other content hstart hcontent

/-- A file with another first line stays, whatever a call does. -/
theorem kept_step {path : String} {content : List UInt8} (hcontent : files path = some content)
    (hother : firstLine content ≠ GoStrings.bytes generatedUnitMarker) :
    (applyServiceUnit isPrint call.1 call.2 files).2 path = some content := by
  rcases applyServiceUnit_files isPrint call.1 call.2 files with
    hsame | ⟨target, n, htarget, hcheck, hfiles, _⟩
  · rwa [hsame]
  · have hne : path ≠ target := by
      intro he
      rw [← he, hcontent] at hcheck
      exact hother (checkMarker_ok hcheck)
    rw [hfiles, Function.update_of_ne hne, hcontent]

theorem onlyUnits_step {path : String}
    (h : (applyServiceUnit isPrint call.1 call.2 files).2 path ≠ files path) : IsUnitPath path := by
  rcases applyServiceUnit_files isPrint call.1 call.2 files with
    hsame | ⟨target, n, htarget, _, hfiles, _⟩
  · exact absurd (by rw [hsame]) h
  · by_cases he : path = target
    · rw [he]
      exact unitPath_isUnitPath htarget
    · exact absurd (by rw [hfiles, Function.update_of_ne he]) h

/-- A write that stops within the marker leaves a file that every later call refuses. -/
theorem cut_refused {before : UnitFiles} (hcut : CutsOwn isPrint start files call) :
    ¬ Protected isPrint start before (applyServiceUnit isPrint call.1 call.2 files).2 := by
  obtain ⟨path, bytes, text, hpath, hstart, hcheck, hwrite, hshort⟩ := hcut
  intro hprotected
  have hfile : (applyServiceUnit isPrint call.1 call.2 files).2 path =
      some ((GoStrings.bytes (renderServiceUnit isPrint call.1)).take bytes) := by
    unfold unitPath at hpath
    unfold applyServiceUnit
    cases hname : serviceUnitBaseAndFile isPrint call.1.serviceName with
    | error text => simp [hname] at hpath
    | ok unit =>
      simp only [hname, Option.some.injEq] at hpath
      simp [(serviceUnitBaseAndFile_ok hname).1, hpath, hcheck, hwrite, writeUnitFile]
  have hagain := hprotected.reapplied path hstart (by simp [hfile]) call.1 hpath
  rw [applyServiceUnit_working hpath] at hagain
  have hlong := firstLine_take.mp (hagain _ hfile)
  omega

end Calls

section Runs

variable {isPrint : Char → Bool} {start : UnitFiles} {calls : List (UnitApp × UnitAnswer)}

theorem applyAll_concat (front : List (UnitApp × UnitAnswer)) (call : UnitApp × UnitAnswer) :
    applyAll isPrint start (front ++ [call]) =
      (applyServiceUnit isPrint call.1 call.2 (applyAll isPrint start front)).2 := by
  simp [applyAll]

theorem ownMarked_all
    (hcut : ∀ front call rest, calls = front ++ call :: rest →
      ¬ CutsOwn isPrint start (applyAll isPrint start front) call) :
    OwnMarked start (applyAll isPrint start calls) := by
  induction calls using List.reverseRecOn with
  | nil =>
    intro path content hstart hcontent
    have hsome : start path = some content := hcontent
    rw [hstart] at hsome
    contradiction
  | append_singleton front call ih =>
    rw [applyAll_concat]
    refine ownMarked_step (ih ?_) (hcut front call [] rfl)
    intro early other rest he
    exact hcut early other (rest ++ [call]) (by simp [he])

theorem kept_all {path : String} {content : List UInt8} (hcontent : start path = some content)
    (hother : firstLine content ≠ GoStrings.bytes generatedUnitMarker) :
    applyAll isPrint start calls path = some content := by
  induction calls using List.reverseRecOn with
  | nil => exact hcontent
  | append_singleton front call ih =>
    rw [applyAll_concat]
    exact kept_step ih hother

theorem onlyUnits_all {path : String} (h : applyAll isPrint start calls path ≠ start path) :
    IsUnitPath path := by
  induction calls using List.reverseRecOn with
  | nil => exact absurd rfl h
  | append_singleton front call ih =>
    rw [applyAll_concat] at h
    by_cases hbefore : applyAll isPrint start front path = start path
    · rw [← hbefore] at h
      exact onlyUnits_step h
    · exact ih hbefore

/-- The marker protects every file, and no call is refused by what an earlier one has left,
exactly if no call stops within the marker of a file that was not there. -/
theorem protected_iff :
    (∀ early late, early ++ late <+: calls → Protected isPrint start
        (applyAll isPrint start early) (applyAll isPrint start (early ++ late))) ↔
      ∀ front call rest, calls = front ++ call :: rest →
        ¬ CutsOwn isPrint start (applyAll isPrint start front) call := by
  constructor
  · intro hprotected front call rest he hcut
    have hafter := hprotected front [call] ⟨rest, by simp [he]⟩
    rw [applyAll_concat] at hafter
    exact cut_refused hcut hafter
  · intro hcut early late hprefix
    obtain ⟨rest, he⟩ := hprefix
    have hmarked : OwnMarked start (applyAll isPrint start (early ++ late)) := by
      apply ownMarked_all
      intro front call more hfront
      exact hcut front call (more ++ rest) (by simp [← he, hfront])
    have hlate : applyAll isPrint start (early ++ late) =
        applyAll isPrint (applyAll isPrint start early) late := by
      simp [applyAll]
    refine ⟨?_, ?_, ?_⟩
    · rw [hlate]
      exact fun path content => kept_all
    · rw [hlate]
      exact fun path => onlyUnits_all
    · intro path hstart _ app hpath
      rw [applyServiceUnit_working hpath]
      exact fun content hcontent => hmarked path content hstart hcontent

/-- A disk that fills up within the marker: the unit can not be applied again. -/
theorem cutMarker_wedges :
    let app : UnitApp := ⟨"bot", "bot.service", "/opt/bot/bot", [], []⟩
    let full : UnitAnswer := ⟨none, .cut 40 "no space left on device", none, none⟩
    let files := applyAll isPrintASCII (fun _ => none) [(app, full)]
    unitPath isPrintASCII app = some "/etc/systemd/system/bot.service" ∧
      (files "/etc/systemd/system/bot.service").isSome = true ∧
      (applyServiceUnit isPrintASCII app .working files).1 = .error .refuseOverwrite := by
  refine ⟨?_, ?_, ?_⟩ <;> decide +kernel

end Runs

end AutoDeploy
