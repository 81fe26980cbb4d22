import AutoDeploy.JsValues
import AutoDeploy.UnitEnvironment

namespace AutoDeploy

open Interleaving JsStrings

/-- `EnvVar` of the admin client. -/
structure JsEnvVar where
  name : JsString
  value : JsString
deriving DecidableEq

/-- What the client has of a variable that the server stores. -/
def EnvVar.toJs (v : EnvVar) : JsEnvVar := ⟨js v.name, js v.value⟩

/-- One line of `parseEnvText`. -/
def parseEnvLine (rawLine : JsString) : Option JsEnvVar :=
  let line := trim rawLine
  if line = [] ∨ line.head? = some (unit '#') then none
  else match line.dropWhile (· ≠ unit '=') with
    | [] => some ⟨line, []⟩
    | _ :: value => some ⟨trim (line.takeWhile (· ≠ unit '=')), value⟩

def parseEnvText (text : JsString) : List JsEnvVar := (splitLines text).filterMap parseEnvLine

def JsEnvVar.toLine (v : JsEnvVar) : JsString := v.name ++ unit '=' :: v.value

def envVarsToText (vars : List JsEnvVar) : JsString := joinLines (vars.map JsEnvVar.toLine)

/-- A value that its line keeps. -/
def OnOneLine (value : JsString) : Prop :=
  unit '\n' ∉ value ∧ ∀ u, value.getLast? = some u → isWhitespace u = false

/-- Whatever the text, a parsed value stands on one line. -/
theorem parseEnvText_onOneLine {text : JsString} {v : JsEnvVar} (h : v ∈ parseEnvText text) :
    OnOneLine v.value := by
  obtain ⟨rawLine, hline, hv⟩ := List.mem_filterMap.mp h
  have hnewline : unit '\n' ∉ trim rawLine := fun hm =>
    splitLines_noNewline hline (trim_subset rawLine hm)
  unfold parseEnvLine at hv
  dsimp only at hv
  split at hv
  next => contradiction
  next =>
    have hsplit := List.takeWhile_append_dropWhile (p := (· ≠ unit '=')) (l := trim rawLine)
    split at hv
    next =>
      cases hv
      exact ⟨by simp, by simp⟩
    next sep value hdrop =>
      cases hv
      rw [hdrop] at hsplit
      refine ⟨?_, ?_⟩
      · intro hm
        apply hnewline
        rw [← hsplit]
        exact List.mem_append_right _ (List.mem_cons_of_mem sep hm)
      · intro u hu
        apply trim_last (s := rawLine)
        rw [← hsplit, List.getLast?_append, List.getLast?_cons, hu]
        rfl

/-- The name at the front and the value at the end keep `trim` from taking anything. -/
theorem trim_toLine {v : JsEnvVar} (hfirst : ∀ u, v.name.head? = some u → isWhitespace u = false)
    (hempty : v.name ≠ []) (hvalue : OnOneLine v.value) : trim v.toLine = v.toLine := by
  have hequals : isWhitespace (unit '=') = false := by decide
  apply trim_self
  · intro u hu
    obtain ⟨first, rest, hlist⟩ := List.exists_cons_of_ne_nil hempty
    apply hfirst
    rwa [JsEnvVar.toLine, hlist, List.cons_append, List.head?_cons, ← List.head?_cons,
      ← hlist] at hu
  · intro u hu
    rw [JsEnvVar.toLine, List.getLast?_append, List.getLast?_cons] at hu
    cases hlast : v.value.getLast? with
    | none =>
      simp only [hlast, Option.getD_none, Option.some_or, Option.some.injEq] at hu
      rw [← hu]
      exact hequals
    | some last =>
      simp only [hlast, Option.getD_some, Option.some_or, Option.some.injEq] at hu
      rw [← hu]
      exact hvalue.2 last hlast

/-- A line of the text is read back as its variable. -/
theorem parseEnvLine_toLine {v : JsEnvVar}
    (hname : ∀ u ∈ v.name, isWhitespace u = false ∧ u ≠ unit '=' ∧ u ≠ unit '#')
    (hempty : v.name ≠ []) (hvalue : OnOneLine v.value) : parseEnvLine v.toLine = some v := by
  obtain ⟨first, rest, hlist⟩ := List.exists_cons_of_ne_nil hempty
  have hfirst := hname first (hlist ▸ List.mem_cons_self)
  have htrim : trim v.toLine = v.toLine :=
    trim_toLine (fun u hu => (hname u (List.mem_of_head? hu)).1) hempty hvalue
  have hnameTrim : trim v.name = v.name := by
    apply trim_self
    · exact fun u hu => (hname u (List.mem_of_head? hu)).1
    · exact fun u hu => (hname u (List.mem_of_getLast? hu)).1
  have hplain : ∀ u ∈ v.name, (decide (u ≠ unit '=')) = true := fun u hu =>
    decide_eq_true (hname u hu).2.1
  have hdrop : v.toLine.dropWhile (· ≠ unit '=') = unit '=' :: v.value := by
    rw [JsEnvVar.toLine, List.dropWhile_append_of_pos hplain]
    simp
  have htake : v.toLine.takeWhile (· ≠ unit '=') = v.name := by
    rw [JsEnvVar.toLine, List.takeWhile_append_of_pos hplain]
    simp
  have hkeeps : ¬ (v.toLine = [] ∨ v.toLine.head? = some (unit '#')) := by
    rw [JsEnvVar.toLine, hlist]
    simpa using hfirst.2.2
  unfold parseEnvLine
  simp only [htrim, if_neg hkeeps, hdrop, htake, hnameTrim]

/-- The code units of a valid name. -/
theorem js_envVarName {name : String} (h : isEnvVarName name = true) :
    ∀ u ∈ js name, isWhitespace u = false ∧ u ≠ unit '=' ∧ u ≠ unit '#' := by
  intro u hu
  obtain ⟨c, hc, hunit⟩ := List.mem_flatMap.mp hu
  have hpart := isEnvVarName_chars h c hc
  obtain ⟨hlow, hhigh⟩ := isEnvVarPart_range hpart
  have hu : u = unit c := by
    rw [utf16Char, if_pos (by omega)] at hunit
    exact List.mem_singleton.mp hunit
  have hnat : u.toNat = c.toNat := by
    rw [hu, unit, UInt16.toNat_ofNat']
    omega
  have hspaces : ([9, 10, 11, 12, 13, 0x20, 0xa0, 0x1680, 0x2028, 0x2029, 0x202f, 0x205f, 0x3000,
      0xfeff].all fun r : UInt16 => r.toNat < 0x30 || 0x7b ≤ r.toNat) = true := by
    decide
  refine ⟨?_, ?_, ?_⟩
  · unfold isWhitespace
    rw [Bool.or_eq_false_iff, Bool.and_eq_false_iff]
    refine ⟨?_, Or.inl ?_⟩
    · rw [Bool.eq_false_iff]
      intro hm
      have hr := List.all_eq_true.mp hspaces u (List.contains_iff_mem.mp hm)
      simp only [Bool.or_eq_true, decide_eq_true_eq] at hr
      omega
    · rw [decide_eq_false_iff_not]
      intro hle
      have hwide : 0x2000 ≤ u.toNat := UInt16.le_iff_toNat_le.mp hle
      omega
  · intro he
    have hequals : c.toNat = '='.toNat := by
      rw [← hnat, he]
      decide
    have hchar : c = '=' := Char.toNat_inj.mp hequals
    rw [hchar] at hpart
    revert hpart
    decide
  · intro he
    have hhash : c.toNat = 0x23 := by
      rw [← hnat, he]
      decide
    omega

theorem js_envVarName_ne_nil {name : String} (h : isEnvVarName name = true) : js name ≠ [] := by
  intro he
  have hchars : name.toList = [] := by
    have hflat := List.flatMap_eq_nil_iff.mp he
    rw [List.eq_nil_iff_forall_not_mem]
    intro c hc
    have hnil := hflat c hc
    unfold utf16Char at hnil
    split at hnil
    next => contradiction
    next => contradiction
  rw [isEnvVarName, hchars] at h
  contradiction

/-- The line of a variable that the store accepts is one line, and is read back as it. -/
theorem readLines_toLine {v : EnvVar} (hname : isEnvVarName v.name = true)
    (hvalue : OnOneLine (js v.value)) :
    (splitLines v.toJs.toLine).filterMap parseEnvLine = [v.toJs] := by
  have hunits := js_envVarName hname
  have hnewline : unit '\n' ∉ v.toJs.toLine := by
    rw [JsEnvVar.toLine, List.mem_append, List.mem_cons]
    intro hm
    obtain hm | hm | hm := hm
    · have hspace := (hunits _ hm).1
      revert hspace
      decide
    · revert hm
      decide
    · exact hvalue.1 hm
  rw [splitLines_single hnewline, List.filterMap_cons,
    parseEnvLine_toLine hunits (js_envVarName_ne_nil hname) hvalue, List.filterMap_nil]

/-- Saving the variables of an app unchanged keeps them exactly where every value stands on one
line and does not end in white space. -/
theorem envText_roundTrip_iff {quote : String → String} {id : String}
    {req : AdminRequest (List EnvVar)} {vars : List EnvVar}
    (hsaved : (saveAppEnv quote id req).Returns (.envSaved vars)) :
    parseEnvText (envVarsToText (vars.map EnvVar.toJs)) = vars.map EnvVar.toJs ↔
      ∀ v ∈ vars, OnOneLine (js v.value) := by
  have hnames := (saveAppEnv_names hsaved).1
  constructor
  · intro h v hv
    have hparsed : v.toJs ∈ parseEnvText (envVarsToText (vars.map EnvVar.toJs)) := by
      rw [h]
      exact List.mem_map_of_mem hv
    exact parseEnvText_onOneLine hparsed
  · intro h
    have hread : ∀ v ∈ vars, (splitLines v.toJs.toLine).filterMap parseEnvLine = [v.toJs] :=
      fun v hv => readLines_toLine (hnames v hv) (h v hv)
    cases vars with
    | nil => decide
    | cons v rest =>
      have hlines : splitLines (envVarsToText ((v :: rest).map EnvVar.toJs)) =
          (v :: rest).flatMap fun w => splitLines w.toJs.toLine := by
        rw [envVarsToText, splitLines_join (by simp), List.flatMap_map, List.flatMap_map]
      have hcollect : ((v :: rest).flatMap fun w =>
          (splitLines w.toJs.toLine).filterMap parseEnvLine) =
            (v :: rest).flatMap fun w => [w.toJs] := List.flatMap_congr hread
      rw [parseEnvText, hlines, List.filterMap_flatMap, hcollect, List.map_eq_flatMap]

theorem envText_roundTrip_iff_token :
    parseEnvText (envVarsToText [(⟨"TOKEN", " a=#b"⟩ : EnvVar).toJs]) =
      [(⟨"TOKEN", " a=#b"⟩ : EnvVar).toJs] :=
  (@envText_roundTrip_iff _ _ _ [⟨"TOKEN", " a=#b"⟩] saveAppEnv_token).mpr (by
    intro v hv
    have hlast : (js " a=#b").getLast? = some (unit 'b') := by decide +kernel
    rw [List.mem_singleton.mp hv]
    refine ⟨by decide +kernel, ?_⟩
    intro u hu
    rw [hlast, Option.some.injEq] at hu
    rw [← hu]
    decide)

/-- A key in several lines becomes other variables. -/
theorem multilineValue_rewritten :
    (saveAppEnv (GoStrings.quote isPrintASCII) "a1" ⟨"application/json",
        some [⟨"TOKEN", "begin\nkey\nend"⟩]⟩).Returns
      (.envSaved [⟨"TOKEN", "begin\nkey\nend"⟩]) ∧
      parseEnvText (envVarsToText [(⟨"TOKEN", "begin\nkey\nend"⟩ : EnvVar).toJs]) =
        [⟨js "TOKEN", js "begin"⟩, ⟨js "key", []⟩, ⟨js "end", []⟩] ∧
      parseEnvText (envVarsToText [(⟨"TOKEN", "begin\nkey\nend"⟩ : EnvVar).toJs]) ≠
        [(⟨"TOKEN", "begin\nkey\nend"⟩ : EnvVar).toJs] :=
  ⟨saveAppEnv_token, by decide +kernel, by decide +kernel⟩

end AutoDeploy
