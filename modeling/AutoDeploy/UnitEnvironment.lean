import AutoDeploy.ExecArgs
import AutoDeploy.UnitInjection

namespace AutoDeploy

open Interleaving UnitSyntax

theorem validateEnvVarName_ok {quote : String → String} {name : String}
    (h : validateEnvVarName quote name = .ok ()) : isEnvVarName name = true := by
  unfold validateEnvVarName at h
  split at h
  next => contradiction
  next =>
    split at h
    next hname => exact hname
    next => contradiction

/-- The variables that the loop keeps are valid, and new. -/
theorem checkEnvVars_kept {quote : String → String} {seen : List String} {vars : List EnvVar} :
    (∀ v ∈ (checkEnvVars quote seen vars).1, isEnvVarName v.name = true ∧ v.name ∉ seen) ∧
      ((checkEnvVars quote seen vars).1.map EnvVar.name).Nodup := by
  induction vars generalizing seen with
  | nil => simp [checkEnvVars]
  | cons v rest ih =>
    unfold checkEnvVars
    split
    next => exact ih
    next =>
      split
      next => exact ih
      next hvalid =>
        split
        next => exact ih
        next hnew =>
          have hrest := @ih (v.name :: seen)
          have hname := validateEnvVarName_ok hvalid
          refine ⟨?_, ?_⟩
          · intro w hw
            rcases List.mem_cons.mp hw with rfl | hw
            · exact ⟨hname, hnew⟩
            · have hkept := hrest.1 w hw
              exact ⟨hkept.1, fun hm => hkept.2 (List.mem_cons_of_mem _ hm)⟩
          · refine List.nodup_cons.mpr ⟨?_, hrest.2⟩
            intro hm
            obtain ⟨w, hw, hsame⟩ := List.mem_map.mp hm
            exact (hrest.1 w hw).2 (hsame ▸ List.mem_cons_self)

/-- What `SaveAppEnvHertz` has checked of the variables that it saves. -/
theorem saveAppEnv_names {quote : String → String} {id : String}
    {req : AdminRequest (List EnvVar)} {vars : List EnvVar}
    (h : (saveAppEnv quote id req).Returns (.envSaved vars)) :
    (∀ v ∈ vars, isEnvVarName v.name = true) ∧ (vars.map EnvVar.name).Nodup := by
  unfold saveAppEnv at h
  split at h
  next => simp [unsupportedMediaType] at h
  next =>
    obtain ⟨found, _, h⟩ := Prog.returns_bind.mp h
    cases found with
    | error e => simp [appNotFound] at h
    | ok app =>
      dsimp only at h
      split at h
      next => simp [invalidJSON] at h
      next envVars hbody =>
        have hkept := @checkEnvVars_kept quote [] envVars
        split at h
        next => simp at h
        next =>
          obtain ⟨saved, _, h⟩ := Prog.returns_bind.mp h
          cases saved with
          | error e => simp at h
          | ok =>
            have hvars : (checkEnvVars quote [] envVars).1 = vars := by simpa using h
            rw [← hvars]
            exact ⟨fun v hv => (hkept.1 v hv).1, hkept.2⟩

theorem isEnvVarName_chars {name : String} (h : isEnvVarName name = true) :
    ∀ c ∈ name.toList, isEnvVarPart c = true := by
  unfold isEnvVarName at h
  split at h
  next => contradiction
  next first rest hlist =>
    rw [Bool.and_eq_true, List.all_eq_true] at h
    have hfirst : isEnvVarPart first = true := by
      have hstart := h.1
      simp only [isEnvVarStart, Bool.or_eq_true] at hstart
      simp only [isEnvVarPart, Char.isAlphanum, Bool.or_eq_true]
      tauto
    intro c hm
    rw [hlist] at hm
    rcases List.mem_cons.mp hm with rfl | hm
    · exact hfirst
    · exact h.2 c hm

theorem isEnvVarPart_range {c : Char} (h : isEnvVarPart c = true) :
    0x30 ≤ c.toNat ∧ c.toNat < 0x7b := by
  unfold isEnvVarPart at h
  delta Char.isAlphanum Char.isAlpha Char.isUpper Char.isLower Char.isDigit at h
  simp only [Bool.or_eq_true, Bool.and_eq_true, decide_eq_true_eq, beq_iff_eq] at h
  have hval : c.val.toNat = c.toNat := rfl
  rcases h with ((⟨hlow, hhigh⟩ | ⟨hlow, hhigh⟩) | ⟨hlow, hhigh⟩) | rfl
  · have h₁ := UInt32.le_iff_toNat_le.mp hlow
    have h₂ := UInt32.le_iff_toNat_le.mp hhigh
    simp at h₁ h₂
    omega
  · have h₁ := UInt32.le_iff_toNat_le.mp hlow
    have h₂ := UInt32.le_iff_toNat_le.mp hhigh
    simp at h₁ h₂
    omega
  · have h₁ := UInt32.le_iff_toNat_le.mp hlow
    have h₂ := UInt32.le_iff_toNat_le.mp hhigh
    simp at h₁ h₂
    omega
  · decide

theorem isEnvVarPart_bare {c : Char} (h : isEnvVarPart c = true) : isBare c = true := by
  have hother : (['"', '\'', '\\', ' ', '\t', '\n', '\r'].all fun r => !isEnvVarPart r) = true := by
    decide
  simp only [isBare, Bool.not_eq_true', List.contains_eq_mem, decide_eq_false_iff_not]
  intro hm
  have hc := List.all_eq_true.mp hother c hm
  simp [h] at hc

theorem isEnvVarPart_notSpace {c : Char} (h : isEnvVarPart c = true) :
    GoStrings.isSpace c = false := by
  obtain ⟨hlow, hhigh⟩ := isEnvVarPart_range h
  have hother : (['\t', '\n', '\x0b', '\x0c', '\r', ' ', '\u0085', '\u00a0', '\u1680',
      '\u2028', '\u2029', '\u202f', '\u205f', '\u3000'].all
        fun r => r.toNat < 0x30 || 0x7b ≤ r.toNat) = true := by
    decide
  unfold GoStrings.isSpace
  simp only [Bool.or_eq_false_iff, Bool.and_eq_false_iff, decide_eq_false_iff_not]
  refine ⟨?_, Or.inl ?_⟩
  · intro hm
    have hc := List.all_eq_true.mp hother c hm
    simp only [Bool.or_eq_true, decide_eq_true_eq] at hc
    omega
  · intro hle
    have hwide : 0x2000 ≤ c.toNat := UInt32.le_iff_toNat_le.mp hle
    omega

theorem isEnvVarPart_notControl {c : Char} (h : isEnvVarPart c = true) : isControl c = false := by
  obtain ⟨hlow, hhigh⟩ := isEnvVarPart_range h
  have hval : c.val.toNat = c.toNat := rfl
  simp only [isControl, Bool.or_eq_false_iff, decide_eq_false_iff_not, beq_eq_false_iff_ne]
  refine ⟨?_, ?_⟩
  · intro hlt
    have hsmall : c.val.toNat < 0x20 := hlt
    omega
  · intro he
    rw [he] at hval
    have hdel : (0x7f : UInt32).toNat = 0x7f := rfl
    omega

/-- A valid name is its own cleaned form. -/
theorem cleanSystemdValue_envVarName {name : String} (h : isEnvVarName name = true) :
    cleanSystemdValue name = name := by
  have hchars := isEnvVarName_chars h
  have hspace : ∀ c ∈ name.toList, GoStrings.isSpace c = false := fun c hm =>
    isEnvVarPart_notSpace (hchars c hm)
  have htrim : ∀ cs : List Char, (∀ c ∈ cs, GoStrings.isSpace c = false) →
      cs.dropWhile GoStrings.isSpace = cs := by
    intro cs hcs
    cases cs with
    | nil => rfl
    | cons c rest => simp [hcs c List.mem_cons_self]
  have hcontrol : ∀ c ∈ name.toList, isControl c = false := fun c hm =>
    isEnvVarPart_notControl (hchars c hm)
  rw [cleanSystemdValue_trims hcontrol, GoStrings.trimSpace, htrim _ hspace,
    htrim _ fun c hm => hspace c (List.mem_reverse.mp hm), List.reverse_reverse,
    String.ofList_toList]

theorem environmentLine_named {isPrint : Char → Bool} {v : EnvVar}
    (h : isEnvVarName v.name = true) :
    environmentLine isPrint v = some (.assignment "Environment"
      (v.name ++ "=" ++ GoStrings.quote isPrint (cleanSystemdValue v.value))) := by
  have hname : v.name ≠ "" := by
    intro he
    rw [he] at h
    revert h
    decide
  simp [environmentLine, cleanSystemdValue_envVarName h, hname]

theorem directiveValues_renderEnvVars {isPrint : Char → Bool} {vars : List EnvVar}
    (h : ∀ v ∈ vars, isEnvVarName v.name = true) :
    directiveValues "Environment" (renderEnvVars isPrint vars) = vars.map fun v =>
      v.name.toList ++ '=' :: (GoStrings.quote isPrint (cleanSystemdValue v.value)).toList := by
  have hlines : (vars.filterMap (environmentLine isPrint)).map UnitLine.text =
      (vars.map fun v => v.name ++ "=" ++
        GoStrings.quote isPrint (cleanSystemdValue v.value)).map fun value =>
          "Environment" ++ "=" ++ value := by
    rw [List.map_map, List.map_filterMap, ← List.filterMap_eq_map]
    apply List.filterMap_congr
    intro v hv
    rw [environmentLine_named (h v hv)]
    rfl
  have hone : ∀ value ∈ vars.map fun v => v.name ++ "=" ++
      GoStrings.quote isPrint (cleanSystemdValue v.value),
      OneLine ("Environment" ++ "=" ++ value).toList := by
    intro value hm
    obtain ⟨v, hv, rfl⟩ := List.mem_map.mp hm
    exact environmentLine_oneLine (environmentLine_named (h v hv))
  rw [renderEnvVars_unlines, hlines, directiveValues_unlines hone, List.map_map]
  apply List.map_congr_left
  intro v _
  simp

theorem environmentAssignments_rendered {isPrint : Char → Bool} {host : Char → List Char}
    {v : EnvVar} (h : isEnvVarName v.name = true) :
    environmentAssignments host (v.name.toList ++
        '=' :: (GoStrings.quote isPrint (cleanSystemdValue v.value)).toList) =
      some [(v.name,
        String.ofList (expandSpecifiers host (cleanSystemdValue v.value).toList))] := by
  have hchars := isEnvVarName_chars h
  have hword := @words_assignment isPrint v.name.toList (cleanSystemdValue v.value)
    (fun c hm => isEnvVarPart_bare (hchars c hm)) (cleanSystemdValue_noNUL v.value)
  have hexpand : ∀ cs : List Char, (∀ c ∈ cs, isEnvVarPart c = true) →
      expandSpecifiers host (cs ++ '=' :: (cleanSystemdValue v.value).toList) =
        cs ++ '=' :: expandSpecifiers host (cleanSystemdValue v.value).toList := by
    intro cs hcs
    induction cs with
    | nil => simp
    | cons c rest ih =>
      have hc : c ≠ '%' := by
        intro he
        have hpart := hcs c List.mem_cons_self
        rw [he] at hpart
        revert hpart
        decide
      rw [List.cons_append, expandSpecifiers_cons hc,
        ih fun r hr => hcs r (List.mem_cons_of_mem c hr), List.cons_append]
  have hequals : ∀ c ∈ v.name.toList, (decide (c ≠ '=')) = true := by
    intro c hm
    rw [decide_eq_true_eq]
    intro he
    have hpart := hchars c hm
    rw [he] at hpart
    revert hpart
    decide
  rw [environmentAssignments, hword]
  simp only [Option.map_some, List.filterMap_cons, List.filterMap_nil, hexpand _ hchars,
    assignment, List.dropWhile_append_of_pos hequals, List.takeWhile_append_of_pos hequals]
  simp

/-- The service manager reads every variable, with its cleaned value after expansion. -/
theorem readEnvironment_renderEnvVars {isPrint : Char → Bool} {vars : List EnvVar}
    (host : Char → List Char) (h : ∀ v ∈ vars, isEnvVarName v.name = true) :
    readEnvironment host (renderEnvVars isPrint vars) = some (vars.map fun v =>
      (v.name, String.ofList (expandSpecifiers host (cleanSystemdValue v.value).toList))) := by
  rw [readEnvironment, directiveValues_renderEnvVars h]
  have hread : (vars.map fun v => v.name.toList ++
        '=' :: (GoStrings.quote isPrint (cleanSystemdValue v.value)).toList).mapM
        (environmentAssignments host) =
      some (vars.map fun v => [(v.name,
        String.ofList (expandSpecifiers host (cleanSystemdValue v.value).toList))]) := by
    induction vars with
    | nil => rfl
    | cons v rest ih =>
      have hv := @environmentAssignments_rendered isPrint host v (h v List.mem_cons_self)
      rw [List.map_cons, List.mapM_cons, hv, ih fun w hw => h w (List.mem_cons_of_mem v hw)]
      rfl
  rw [hread, Option.map_some, ← List.flatMap_def, ← List.map_eq_flatMap]

/-- Of the variables that the handler accepts, none is lost or split, and a value arrives as
`cleanSystemdValue` leaves it. -/
theorem environment_delivered {quote : String → String} {isPrint : Char → Bool}
    {host : Char → List Char} {id : String} {req : AdminRequest (List EnvVar)}
    {vars : List EnvVar} (hsaved : (saveAppEnv quote id req).Returns (.envSaved vars)) :
    ∃ pairs, readEnvironment host (renderEnvVars isPrint vars) = some pairs ∧
      pairs.map Prod.fst = vars.map EnvVar.name ∧ (pairs.map Prod.fst).Nodup ∧
      List.Forall₂ (fun v pair => hasSpecifier (cleanSystemdValue v.value).toList = false →
        pair.2 = cleanSystemdValue v.value) vars pairs := by
  obtain ⟨hnames, hnodup⟩ := saveAppEnv_names hsaved
  have hfst : (vars.map fun v => (v.name, String.ofList
      (expandSpecifiers host (cleanSystemdValue v.value).toList))).map Prod.fst =
      vars.map EnvVar.name := by
    simp
  refine ⟨_, readEnvironment_renderEnvVars host hnames, hfst, by rw [hfst]; exact hnodup, ?_⟩
  rw [List.forall₂_map_right_iff, List.forall₂_same]
  intro v _ hplain
  rw [expandSpecifiers_self hplain, String.ofList_toList]

/-- A server with one app. -/
def servingBot : Server :=
  .started .empty ⟨
    [⟨"a1", "bot", "", "/opt/bot/bot", "bot.service", "acme/bot", "bot.tar.gz", true⟩],
    by decide, by decide, by decide, by decide⟩

theorem saveAppEnv_token {value : String} :
    (saveAppEnv (GoStrings.quote isPrintASCII) "a1"
      ⟨"application/json", some [⟨"TOKEN", value⟩]⟩).Returns (.envSaved [⟨"TOKEN", value⟩]) := by
  have hprefix : GoStrings.hasPrefix "application/json" "application/json" = true := by
    decide +kernel
  have hjson : isJSONRequest (⟨"application/json", some [⟨"TOKEN", value⟩]⟩ :
      AdminRequest (List EnvVar)) = true := hprefix
  have hname : isEnvVarName "TOKEN" = true := by decide +kernel
  have hvars : checkEnvVars (GoStrings.quote isPrintASCII) [] [⟨"TOKEN", value⟩] =
      ([⟨"TOKEN", value⟩], []) := by
    simp [checkEnvVars, validateEnvVarName, hname]
  have hvalid : firstError (fun v : EnvVar =>
      validateEnvVarName (GoStrings.quote isPrintASCII) v.name) [⟨"TOKEN", value⟩] = none := by
    simp [firstError, validateEnvVarName, hname]
  have hset : (setAppEnv (GoStrings.quote isPrintASCII) "a1" [⟨"TOKEN", value⟩]).Returns
      (.ok ()) := by
    unfold setAppEnv
    rw [hvalid]
    exact ⟨servingBot, ⟨none, ""⟩, rfl, rfl⟩
  unfold saveAppEnv
  rw [hjson]
  refine Prog.returns_bind.mpr ⟨.ok _, ⟨servingBot, ⟨none, ""⟩, rfl, rfl⟩, ?_⟩
  simp only [hvars]
  exact Prog.returns_bind.mpr ⟨.ok (), hset, rfl⟩

theorem environment_delivered_token :
    ∃ pairs, readEnvironment (fun _ => [])
        (renderEnvVars isPrintASCII [⟨"TOKEN", "a=\"b\\ c"⟩]) = some pairs ∧
      pairs.map Prod.fst = ["TOKEN"] ∧ (pairs.map Prod.fst).Nodup ∧
      List.Forall₂ (fun (v : EnvVar) (pair : String × String) =>
        hasSpecifier (cleanSystemdValue v.value).toList = false →
          pair.2 = cleanSystemdValue v.value) [⟨"TOKEN", "a=\"b\\ c"⟩] pairs :=
  environment_delivered saveAppEnv_token

theorem newlineInValue_lost :
    (saveAppEnv (GoStrings.quote isPrintASCII) "a1" ⟨"application/json",
        some [⟨"TOKEN", "line1\nline2"⟩]⟩).Returns (.envSaved [⟨"TOKEN", "line1\nline2"⟩]) ∧
      readEnvironment (fun _ => []) (renderEnvVars isPrintASCII [⟨"TOKEN", "line1\nline2"⟩]) ≠
        some [("TOKEN", "line1\nline2")] :=
  ⟨saveAppEnv_token, by decide +kernel⟩

end AutoDeploy
