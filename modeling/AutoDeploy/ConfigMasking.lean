import AutoDeploy.AdminConfig
import AutoDeploy.InterleavingRestart
import AutoDeploy.JsonStrings

namespace AutoDeploy

open Interleaving

/-- A string of bytes, once it has been written as JSON and read back. -/
def throughJSON (bs : List UInt8) : Option String := JsonStrings.decode (JsonStrings.encode bs)

/-- The POST of the config that a GET has shown. -/
def TelegramConfigResponse.posted (config : TelegramConfigResponse) :
    AdminRequest TelegramConfigRequest where
  contentType := "application/json"
  body := do
    let appHash ← throughJSON config.appHash
    let botToken ← throughJSON config.botToken
    let chatUsername ← throughJSON config.chatUsername
    return ⟨config.appID, appHash, botToken, chatUsername, some config.enabled⟩

/-- The fields that the request does not have are dropped. -/
def GitHubConfigResponse.posted (config : GitHubConfigResponse) :
    AdminRequest GitHubConfigRequest where
  contentType := "application/json"
  body := (throughJSON config.token).map GitHubConfigRequest.mk

/-- The secret stays as it is wherever the program is cut off. -/
def KeepsSecret (secret : LiveWorld → List UInt8) (p : ConfigOp ConfigReply) (w : LiveWorld) :
    Prop :=
  ∀ p' w', p.Runs w p' w' → secret w' = secret w

/-- The mask of the token survives JSON, or the save is refused because a field is missing. -/
def TelegramEchoSafe (cfg : TelegramConfig) : Prop :=
  Utf8.Valid (maskBotToken cfg.botToken) ∨
    (cfg.enabled = true ∧ (cfg.appID = 0 ∨ GoStrings.trimSpace (Utf8.text cfg.appHash) = "" ∨
      GoStrings.trimSpace (Utf8.text cfg.chatUsername) = ""))

/-- The token that a save reads of the mask. -/
def echoedToken (setup : ConfigSetup) (stored : List UInt8) : List UInt8 :=
  GoStrings.bytes (GoStrings.trimSpace
    (Utf8.text (maskBotToken (effectiveToken setup stored))))

/-- The mask of the effective token survives JSON and has no white space around it, or what is
left of it happens to be the mask of the token from the environment, or the stored token. -/
def GitHubEchoSafe (setup : ConfigSetup) (stored : List UInt8) : Prop :=
  (Utf8.Valid (maskBotToken (effectiveToken setup stored)) ∧
    GoStrings.trimSpace (Utf8.text (maskBotToken (effectiveToken setup stored))) =
      Utf8.text (maskBotToken (effectiveToken setup stored))) ∨
    echoedToken setup stored = maskBotToken setup.envToken ∨ echoedToken setup stored = stored

section Mask

variable {token : List UInt8} {setup : ConfigSetup} {stored : List UInt8}

theorem maskBotToken_length (token : List UInt8) : (maskBotToken token).length = token.length := by
  unfold maskBotToken
  split
  next h => rw [h]
  next =>
    split
    next => rw [List.length_replicate]
    next hlong =>
      rw [List.length_append, List.length_replicate, List.length_drop]
      omega

/-- A mask starts with a star. -/
theorem maskBotToken_cons (h : token ≠ []) : ∃ rest, maskBotToken token = star :: rest := by
  have hpos : 0 < token.length := List.length_pos_iff.mpr h
  unfold maskBotToken
  rw [if_neg h]
  split
  next =>
    obtain ⟨n, hn⟩ : ∃ n, token.length = n + 1 := ⟨token.length - 1, by omega⟩
    exact ⟨List.replicate n star, by rw [hn, List.replicate_succ]⟩
  next hlong =>
    obtain ⟨n, hn⟩ : ∃ n, token.length - 4 = n + 1 := ⟨token.length - 5, by omega⟩
    exact ⟨List.replicate n star ++ token.drop (token.length - 4),
      by rw [hn, List.replicate_succ, List.cons_append]⟩

theorem text_star (rest : List UInt8) : (Utf8.text (star :: rest)).toList =
    '*' :: Utf8.runes rest := by
  have hstar : star :: rest = String.utf8EncodeChar '*' ++ rest := rfl
  rw [Utf8.text, String.toList_ofList, hstar, Utf8.runes_append]

theorem mem_trimSpace {s : String} {r : Char} (hm : r ∈ s.toList)
    (hr : GoStrings.isSpace r = false) : r ∈ (GoStrings.trimSpace s).toList := by
  have hdrop : ∀ rs : List Char, r ∈ rs → r ∈ rs.dropWhile GoStrings.isSpace := by
    intro rs hmem
    induction rs with
    | nil => exact absurd hmem List.not_mem_nil
    | cons x rest ih =>
      by_cases hx : GoStrings.isSpace x = true
      · rw [List.dropWhile_cons_of_pos hx]
        rcases List.mem_cons.mp hmem with rfl | hrest
        · rw [hr] at hx
          cases hx
        · exact ih hrest
      · rw [List.dropWhile_cons_of_neg hx]
        exact hmem
  unfold GoStrings.trimSpace
  rw [String.toList_ofList, List.mem_reverse]
  exact hdrop _ (List.mem_reverse.mpr (hdrop _ hm))

theorem bytes_nil {s : String} : GoStrings.bytes s = [] ↔ s = "" := by
  constructor
  · intro h
    rw [← Utf8.text_bytes s, h]
    rfl
  · rintro rfl
    exact GoStrings.bytes_empty

theorem text_mask_ne (h : token ≠ []) : Utf8.text (maskBotToken token) ≠ "" := by
  obtain ⟨rest, hrest⟩ := maskBotToken_cons h
  intro hempty
  have hlist := text_star rest
  rw [← hrest, hempty] at hlist
  cases hlist

/-- What a save reads of a mask is nothing only where there is no token. -/
theorem echoedToken_ne (h : effectiveToken setup stored ≠ []) : echoedToken setup stored ≠ [] := by
  obtain ⟨rest, hrest⟩ := maskBotToken_cons h
  intro hempty
  have hm : '*' ∈ (Utf8.text (maskBotToken (effectiveToken setup stored))).toList := by
    rw [hrest, text_star]
    exact List.mem_cons_self
  have htrim := mem_trimSpace hm (by decide)
  rw [bytes_nil.mp hempty] at htrim
  cases htrim

end Mask

section Echo

variable {setup : ConfigSetup} {w : LiveWorld}

theorem throughJSON_eq (bs : List UInt8) : throughJSON bs = some (Utf8.text bs) :=
  JsonStrings.decode_encode bs

/-- The body that a save decodes of the shown config. -/
def echoedTelegram (cfg : TelegramConfig) : TelegramConfigRequest :=
  ⟨cfg.appID, Utf8.text cfg.appHash, Utf8.text (maskBotToken cfg.botToken),
    Utf8.text cfg.chatUsername, some cfg.enabled⟩

theorem posted_telegram (cfg : TelegramConfig) :
    (telegramConfigResponseFrom cfg).posted = ⟨"application/json", some (echoedTelegram cfg)⟩ := by
  simp only [TelegramConfigResponse.posted, throughJSON_eq, telegramConfigResponseFrom]
  rfl

theorem posted_github (stored : List UInt8) : (githubResponseFor setup stored).posted =
    ⟨"application/json", some ⟨Utf8.text (maskBotToken (effectiveToken setup stored))⟩⟩ := by
  simp only [GitHubConfigResponse.posted, throughJSON_eq, githubResponseFor]
  rfl

/-- The bytes of a mask that survives JSON come back as they were, and else as more. -/
theorem echoedTelegram_token (cfg : TelegramConfig) :
    ((echoedTelegram cfg).onto cfg).botToken = cfg.botToken ↔
      Utf8.Valid (maskBotToken cfg.botToken) := by
  constructor
  · intro h
    by_contra hinvalid
    have htoken : cfg.botToken ≠ [] := by
      intro hempty
      exact hinvalid (by rw [hempty]; decide)
    have hbytes : GoStrings.bytes (Utf8.text (maskBotToken cfg.botToken)) ≠
        maskBotToken cfg.botToken := fun he => hinvalid (Utf8.valid_iff.mpr he)
    have hnew : GoStrings.bytes (Utf8.text (maskBotToken cfg.botToken)) = cfg.botToken := by
      simpa [TelegramConfigRequest.onto, echoedTelegram, text_mask_ne htoken, hbytes] using h
    obtain ⟨-, hvalid⟩ := Utf8.encode_runes_length (maskBotToken cfg.botToken)
    apply hinvalid
    apply hvalid
    rw [maskBotToken_length]
    rw [Utf8.bytes_encode, Utf8.text, String.toList_ofList] at hnew
    rw [hnew]
  · intro hvalid
    have hbytes := Utf8.valid_iff.mp hvalid
    simp [TelegramConfigRequest.onto, echoedTelegram, hbytes]

theorem validateTelegramConfig_iff {cfg : TelegramConfig} : validateTelegramConfig cfg ≠ [] ↔
    cfg.enabled = true ∧ (cfg.appID = 0 ∨ cfg.appHash = [] ∨ cfg.botToken = [] ∨
      cfg.chatUsername = []) := by
  unfold validateTelegramConfig
  cases cfg.enabled with
  | false => simp
  | true =>
    simp only [Bool.true_eq_false, if_false, ne_eq, List.append_eq_nil_iff, ite_eq_right_iff,
      List.cons_ne_nil, imp_false, true_and]
    tauto

/-- What is posted back leaves the bot token alone exactly on the safe configs. -/
theorem telegramEchoSafe_iff (cfg : TelegramConfig) : TelegramEchoSafe cfg ↔
    ((echoedTelegram cfg).onto cfg).botToken = cfg.botToken ∨
      validateTelegramConfig ((echoedTelegram cfg).onto cfg) ≠ [] := by
  rw [echoedTelegram_token, validateTelegramConfig_iff]
  unfold TelegramEchoSafe
  by_cases hvalid : Utf8.Valid (maskBotToken cfg.botToken)
  · simp only [hvalid, true_or]
  · have htoken : ((echoedTelegram cfg).onto cfg).botToken ≠ [] := by
      intro hempty
      have hne : cfg.botToken ≠ [] := by
        intro he
        exact hvalid (by rw [he]; decide)
      simp only [TelegramConfigRequest.onto, echoedTelegram, text_mask_ne hne, false_or] at hempty
      split at hempty
      next => exact hne hempty
      next => exact text_mask_ne hne (bytes_nil.mp hempty)
    have hhash : ((echoedTelegram cfg).onto cfg).appHash = [] ↔
        GoStrings.trimSpace (Utf8.text cfg.appHash) = "" := bytes_nil
    have hchat : ((echoedTelegram cfg).onto cfg).chatUsername = [] ↔
        GoStrings.trimSpace (Utf8.text cfg.chatUsername) = "" := bytes_nil
    have hid : ((echoedTelegram cfg).onto cfg).appID = cfg.appID := rfl
    have henabled : ((echoedTelegram cfg).onto cfg).enabled = cfg.enabled := rfl
    simp only [hvalid, htoken, hhash, hchat, hid, henabled, false_or]

/-- What is posted back leaves the stored GitHub token alone exactly on the safe tokens. -/
theorem githubEchoSafe_iff (setup : ConfigSetup) (stored : List UInt8) :
    GitHubEchoSafe setup stored ↔
      GitHubConfigRequest.onto setup ⟨Utf8.text (maskBotToken (effectiveToken setup stored))⟩
        stored = stored := by
  have honto : GitHubConfigRequest.onto setup
      ⟨Utf8.text (maskBotToken (effectiveToken setup stored))⟩ stored = stored ↔
      echoedToken setup stored = [] ∨ echoedToken setup stored = maskBotToken stored ∨
        echoedToken setup stored = maskBotToken setup.envToken ∨
          echoedToken setup stored = stored := by
    have hsave : GitHubConfigRequest.onto setup
        ⟨Utf8.text (maskBotToken (effectiveToken setup stored))⟩ stored =
        if echoedToken setup stored = [] ∨ echoedToken setup stored = maskBotToken stored ∨
          echoedToken setup stored = maskBotToken setup.envToken then stored
        else echoedToken setup stored := rfl
    rw [hsave]
    split
    next h =>
      refine ⟨fun _ => ?_, fun _ => rfl⟩
      rcases h with hempty | hstored | henv
      · exact Or.inl hempty
      · exact Or.inr (Or.inl hstored)
      · exact Or.inr (Or.inr (Or.inl henv))
    next h =>
      obtain ⟨hempty, hrest⟩ := not_or.mp h
      obtain ⟨hstored, henv⟩ := not_or.mp hrest
      simp only [hempty, hstored, henv, false_or]
  have hnone : echoedToken setup stored = [] → GitHubEchoSafe setup stored := by
    intro hempty
    have heffective : effectiveToken setup stored = [] := by
      by_contra hne
      exact echoedToken_ne hne hempty
    refine Or.inl ⟨?_, ?_⟩
    · rw [heffective]
      decide
    · rw [heffective]
      decide
  rw [honto]
  constructor
  · rintro (⟨hvalid, htrim⟩ | henv | hsame)
    · have hmask : echoedToken setup stored = maskBotToken (effectiveToken setup stored) := by
        rw [echoedToken, htrim]
        exact Utf8.valid_iff.mp hvalid
      by_cases hstored : stored = []
      · have heffective : effectiveToken setup stored = setup.envToken := by
          rw [effectiveToken, if_pos hstored]
        rw [heffective] at hmask
        exact Or.inr (Or.inr (Or.inl hmask))
      · have heffective : effectiveToken setup stored = stored := by
          rw [effectiveToken, if_neg hstored]
        rw [heffective] at hmask
        exact Or.inr (Or.inl hmask)
    · exact Or.inr (Or.inr (Or.inl henv))
    · exact Or.inr (Or.inr (Or.inr hsame))
  · rintro (hempty | hmask | henv | hsame)
    · exact hnone hempty
    · by_cases hstored : stored = []
      · apply hnone
        rw [hmask, hstored]
        rfl
      · have heffective : effectiveToken setup stored = stored := by
          rw [effectiveToken, if_neg hstored]
        have hsame : echoedToken setup stored =
            maskBotToken (effectiveToken setup stored) := by
          rw [hmask, heffective]
        have htext : Utf8.text (echoedToken setup stored) = GoStrings.trimSpace
            (Utf8.text (maskBotToken (effectiveToken setup stored))) := Utf8.text_bytes _
        refine Or.inl ⟨?_, ?_⟩
        · rw [← hsame, Utf8.valid_iff, htext]
          rfl
        · rw [← htext, hsame]
    · exact Or.inr (Or.inl henv)
    · exact Or.inr (Or.inr hsame)

end Echo

section Saves

variable {setup : ConfigSetup} {w : LiveWorld}

theorem always_getTelegram {J : LiveWorld → Prop} {report : TelegramConfig → List ConfigEvent}
    (hs : J w) : (getTelegram report).Always J
      (fun w' result => w' = w ∧ ∀ cfg, result = .ok cfg → cfg = w.storedTelegram) w := by
  apply Prog.always_atomic hs
  intro k
  cases k.fault with
  | some text => exact ⟨hs, rfl, fun cfg he => by cases he⟩
  | none =>
    refine ⟨hs, rfl, ?_⟩
    intro cfg he
    cases he
    rfl

theorem always_getGitHub {J : LiveWorld → Prop} {report : List UInt8 → List ConfigEvent}
    (hs : J w) : (getGitHub report).Always J
      (fun w' result => w' = w ∧ ∀ token, result = .ok token → token = w.storedToken) w := by
  apply Prog.always_atomic hs
  intro k
  cases k.fault with
  | some text => exact ⟨hs, rfl, fun token he => by cases he⟩
  | none =>
    refine ⟨hs, rfl, ?_⟩
    intro token he
    cases he
    rfl

theorem getTelegramConfig_shows {config : TelegramConfigResponse} {w' : LiveWorld}
    (runs : getTelegramConfig.Runs w (.ret (.telegram config)) w') :
    w' = w ∧ config = telegramConfigResponseFrom w.storedTelegram := by
  have halways : getTelegramConfig.Always (· = w) (fun _ reply => ∀ config,
      reply = .telegram config → config = telegramConfigResponseFrom w.storedTelegram) w := by
    apply Prog.always_bind (always_getTelegram (J := (· = w)) rfl)
    rintro s result rfl ⟨-, hresult⟩
    cases result with
    | error text => exact ⟨rfl, fun config he => by cases he⟩
    | ok cfg =>
      refine ⟨rfl, ?_⟩
      intro config he
      cases he
      rw [hresult cfg rfl]
  exact ⟨halways.cut runs, halways.returned runs config rfl⟩

theorem getGitHubConfig_shows {config : GitHubConfigResponse} {w' : LiveWorld}
    (runs : (getGitHubConfig setup).Runs w (.ret (.github config)) w') :
    w' = w ∧ config = githubResponseFor setup w.storedToken := by
  have halways : (getGitHubConfig setup).Always (· = w) (fun _ reply => ∀ config,
      reply = .github config → config = githubResponseFor setup w.storedToken) w := by
    apply Prog.always_bind (always_getGitHub (J := (· = w)) rfl)
    rintro s result rfl ⟨-, hresult⟩
    cases result with
    | error text => exact ⟨rfl, fun config he => by cases he⟩
    | ok token =>
      refine ⟨rfl, ?_⟩
      intro config he
      cases he
      rw [hresult token rfl]
  exact ⟨halways.cut runs, halways.returned runs config rfl⟩

theorem stays_applyTelegram (setup : ConfigSetup) (cfg : TelegramConfig)
    (row : Option TelegramConfig) :
    (applyTelegram setup cfg).Stays (fun w' => w'.telegram = row) := by
  apply Prog.stays_bind (Prog.stays_await fun s k hs => hs)
  intro _
  apply Prog.stays_bind
  · apply Prog.stays_atomic
    intro s k hs
    cases hmanager : s.manager with
    | none => simpa [hmanager] using hs
    | some m => simpa [hmanager] using hs
  intro _
  cases notifierFor setup cfg with
  | none =>
    apply Prog.stays_bind (Prog.stays_atomic fun s k hs => hs)
    exact fun _ => Prog.stays_atomic fun s k hs => hs
  | some m =>
    apply Prog.stays_bind (Prog.stays_atomic fun s k hs => hs)
    intro _
    apply Prog.stays_bind (Prog.stays_atomic fun s k hs => hs)
    exact fun _ => Prog.stays_atomic fun s k hs => hs

theorem stays_applyGitHub (setup : ConfigSetup) (token : List UInt8)
    (row : Option (List UInt8)) :
    (applyGitHub setup token).Stays (fun w' => w'.github = row) := by
  apply Prog.stays_bind (Prog.stays_await fun s k hs => hs)
  intro _
  apply Prog.stays_bind (Prog.stays_atomic fun s k hs => hs)
  exact fun _ => Prog.stays_atomic fun s k hs => hs

theorem isJSONRequest_json {β : Type} (body : Option β) :
    isJSONRequest ⟨"application/json", body⟩ = true := by
  have hprefix : GoStrings.hasPrefix "application/json" "application/json" = true := by decide
  exact hprefix

/-- The row behind the check of the body, which a save changes to what it has made of it. -/
theorem saveTelegramConfig_row (body : TelegramConfigRequest) :
    (saveTelegramConfig setup ⟨"application/json", some body⟩).Always
      (fun w' => w'.telegram = w.telegram ∨
        (validateTelegramConfig (body.onto w.storedTelegram) = [] ∧
          w'.telegram = some (body.onto w.storedTelegram))) (fun _ _ => True) w := by
  unfold saveTelegramConfig
  simp only [isJSONRequest_json, Bool.not_true, Bool.false_eq_true, if_false]
  apply Prog.always_bind (always_getTelegram (Or.inl rfl))
  rintro s result - ⟨rfl, hresult⟩
  cases result with
  | error text => exact ⟨Or.inl rfl, trivial⟩
  | ok current =>
    rw [hresult current rfl]
    dsimp only
    cases hvalid : validateTelegramConfig (body.onto s.storedTelegram) with
    | cons err rest => exact ⟨Or.inl rfl, trivial⟩
    | nil =>
      dsimp only
      have hsave : (saveTelegram (body.onto s.storedTelegram)).Always
          (fun w' => w'.telegram = s.telegram ∨
            (True ∧ w'.telegram = some (body.onto s.storedTelegram)))
          (fun w' result => result = .ok () →
            w'.telegram = some (body.onto s.storedTelegram)) s := by
        refine Prog.always_atomic (Or.inl rfl) ?_
        intro k
        cases k.fault with
        | some text => exact ⟨Or.inl rfl, fun he => by cases he⟩
        | none => exact ⟨Or.inr ⟨trivial, rfl⟩, fun _ => rfl⟩
      simp only [true_and] at hsave ⊢
      apply Prog.always_bind hsave
      intro w' result hw' hrow
      cases result with
      | error text => exact ⟨hw', trivial⟩
      | ok _ =>
        have hstays := stays_applyTelegram setup (body.onto s.storedTelegram)
          (some (body.onto s.storedTelegram)) w' (hrow rfl)
        apply Prog.always_bind (hstays.imp (fun _ h => Or.inr h) fun _ _ h _ => h)
        intro w'' _ hw'' _
        exact ⟨hw'', trivial⟩

theorem saveGitHubConfig_row (body : GitHubConfigRequest) :
    (saveGitHubConfig setup ⟨"application/json", some body⟩).Always
      (fun w' => w'.github = w.github ∨ w'.github = some (body.onto setup w.storedToken))
      (fun _ _ => True) w := by
  unfold saveGitHubConfig
  simp only [isJSONRequest_json, Bool.not_true, Bool.false_eq_true, if_false]
  apply Prog.always_bind (always_getGitHub (Or.inl rfl))
  rintro s result - ⟨rfl, hresult⟩
  cases result with
  | error text => exact ⟨Or.inl rfl, trivial⟩
  | ok current =>
    rw [hresult current rfl]
    dsimp only
    have hsave : (saveGitHub (body.onto setup s.storedToken)).Always
        (fun w' => w'.github = s.github ∨ w'.github = some (body.onto setup s.storedToken))
        (fun w' result => result = .ok () →
          w'.github = some (body.onto setup s.storedToken)) s := by
      refine Prog.always_atomic (Or.inl rfl) ?_
      intro k
      cases k.fault with
      | some text => exact ⟨Or.inl rfl, fun he => by cases he⟩
      | none => exact ⟨Or.inr rfl, fun _ => rfl⟩
    apply Prog.always_bind hsave
    intro w' result hw' hrow
    cases result with
    | error text => exact ⟨hw', trivial⟩
    | ok _ =>
      have hstays := stays_applyGitHub setup (body.onto setup s.storedToken)
        (some (body.onto setup s.storedToken)) w' (hrow rfl)
      apply Prog.always_bind (hstays.imp (fun _ h => Or.inr h) fun _ _ h _ => h)
      intro w'' _ hw'' _
      exact ⟨hw'', trivial⟩

/-- Where the database works, a save comes to its write. -/
theorem saveTelegramConfig_writes {body : TelegramConfigRequest}
    (h : validateTelegramConfig (body.onto w.storedTelegram) = []) :
    ∃ p', (saveTelegramConfig setup ⟨"application/json", some body⟩).Runs w p'
      { w with telegram := some (body.onto w.storedTelegram) } := by
  unfold saveTelegramConfig
  simp only [isJSONRequest_json, Bool.not_true, Bool.false_eq_true, if_false]
  apply Exists.intro
  apply Prog.runs_atomic ⟨none⟩
  simp only [h]
  apply Prog.runs_atomic ⟨none⟩
  exact .here

theorem saveGitHubConfig_writes (body : GitHubConfigRequest) :
    ∃ p', (saveGitHubConfig setup ⟨"application/json", some body⟩).Runs w p'
      { w with github := some (body.onto setup w.storedToken) } := by
  unfold saveGitHubConfig
  simp only [isJSONRequest_json, Bool.not_true, Bool.false_eq_true, if_false]
  apply Exists.intro
  apply Prog.runs_atomic ⟨none⟩
  apply Prog.runs_atomic ⟨none⟩
  exact .here

theorem telegramEcho_keeps_iff (setup : ConfigSetup) (w : LiveWorld) :
    KeepsSecret (fun w => w.storedTelegram.botToken)
        (saveTelegramConfig setup (telegramConfigResponseFrom w.storedTelegram).posted) w ↔
      TelegramEchoSafe w.storedTelegram := by
  rw [posted_telegram, telegramEchoSafe_iff]
  constructor
  · intro hkeeps
    by_cases hvalid : validateTelegramConfig
        ((echoedTelegram w.storedTelegram).onto w.storedTelegram) = []
    · obtain ⟨p', runs⟩ := @saveTelegramConfig_writes setup w _ hvalid
      exact Or.inl (hkeeps p' _ runs)
    · exact Or.inr hvalid
  · intro hsafe p' w' runs
    rcases (saveTelegramConfig_row (echoedTelegram w.storedTelegram)).cut runs with
      hsame | ⟨hvalid, hnew⟩
    · simp only [LiveWorld.storedTelegram, hsame]
    · have htoken := hsafe.resolve_right fun hne => hne hvalid
      have hrow : w'.storedTelegram =
          (echoedTelegram w.storedTelegram).onto w.storedTelegram := by
        rw [LiveWorld.storedTelegram, hnew]
        rfl
      dsimp only
      rw [hrow, htoken]

theorem githubEcho_keeps_iff (setup : ConfigSetup) (w : LiveWorld) :
    KeepsSecret LiveWorld.storedToken
        (saveGitHubConfig setup (githubResponseFor setup w.storedToken).posted) w ↔
      GitHubEchoSafe setup w.storedToken := by
  rw [posted_github, githubEchoSafe_iff]
  constructor
  · intro hkeeps
    obtain ⟨p', runs⟩ := @saveGitHubConfig_writes setup w
      ⟨Utf8.text (maskBotToken (effectiveToken setup w.storedToken))⟩
    exact hkeeps p' _ runs
  · intro hsafe p' w' runs
    rcases (saveGitHubConfig_row _).cut runs with hsame | hnew
    · simp only [LiveWorld.storedToken, hsame]
    · rw [hsafe] at hnew
      rw [LiveWorld.storedToken, hnew]
      rfl

end Saves

/-- Posting back the two configs that were shown leaves the stored secrets as they are exactly
where their masks survive JSON and the save recognises them. -/
theorem maskedEcho_iff (setup : ConfigSetup) (w : LiveWorld)
    (telegram : TelegramConfigResponse) (github : GitHubConfigResponse)
    (hTelegram : getTelegramConfig.Runs w (.ret (.telegram telegram)) w)
    (hGitHub : (getGitHubConfig setup).Runs w (.ret (.github github)) w) :
    (KeepsSecret (fun w => w.storedTelegram.botToken)
        (saveTelegramConfig setup telegram.posted) w ↔ TelegramEchoSafe w.storedTelegram) ∧
      (KeepsSecret LiveWorld.storedToken (saveGitHubConfig setup github.posted) w ↔
        GitHubEchoSafe setup w.storedToken) := by
  rw [(getTelegramConfig_shows hTelegram).2, (getGitHubConfig_shows hGitHub).2]
  exact ⟨telegramEcho_keeps_iff setup w, githubEcho_keeps_iff setup w⟩

/-- A server at rest with these two rows. -/
def LiveWorld.resting (telegram : Option TelegramConfig) (github : Option (List UInt8)) :
    LiveWorld := ⟨github, telegram, false, [], false, none, [], none⟩

/-- A disabled bot whose token is `12:abcd`, and the GitHub token `ghp_1` of the environment. -/
theorem maskedEcho_iff_plain :
    KeepsSecret (fun w => w.storedTelegram.botToken)
        (saveTelegramConfig ⟨[103, 104, 112, 95, 49], []⟩
          (telegramConfigResponseFrom
            ⟨1, [104], [49, 50, 58, 97, 98, 99, 100], [64], false⟩).posted)
        (.resting (some ⟨1, [104], [49, 50, 58, 97, 98, 99, 100], [64], false⟩) none) ∧
      KeepsSecret LiveWorld.storedToken
        (saveGitHubConfig ⟨[103, 104, 112, 95, 49], []⟩
          (githubResponseFor ⟨[103, 104, 112, 95, 49], []⟩ []).posted)
        (.resting (some ⟨1, [104], [49, 50, 58, 97, 98, 99, 100], [64], false⟩) none) := by
  have hecho := maskedEcho_iff ⟨[103, 104, 112, 95, 49], []⟩
    (.resting (some ⟨1, [104], [49, 50, 58, 97, 98, 99, 100], [64], false⟩) none) _ _
    (Prog.runs_atomic ⟨none⟩ .here) (Prog.runs_atomic ⟨none⟩ .here)
  refine ⟨hecho.1.mpr (Or.inl ?_), hecho.2.mpr (Or.inl ⟨?_, ?_⟩)⟩
  · decide +kernel
  · decide +kernel
  · decide +kernel

/-- A disabled bot whose token is two euro signs. -/
def euroBot : TelegramConfig := ⟨1, [104], [226, 130, 172, 226, 130, 172], [64], false⟩

/-- A server whose environment has a space behind the GitHub token. -/
def spacedSetup : ConfigSetup := ⟨[103, 104, 112, 95, 49, 32], []⟩

/-- The mask of the bot token cuts the first sign, and that of the GitHub token ends in the space.
Both stored secrets become what is left of their masks. -/
theorem cutMask_stored :
    ¬ KeepsSecret (fun w => w.storedTelegram.botToken)
        (saveTelegramConfig spacedSetup (telegramConfigResponseFrom euroBot).posted)
        (.resting (some euroBot) none) ∧
      ¬ KeepsSecret LiveWorld.storedToken
        (saveGitHubConfig spacedSetup (githubResponseFor spacedSetup []).posted)
        (.resting (some euroBot) none) := by
  constructor
  · intro h
    have hsafe : TelegramEchoSafe euroBot :=
      (telegramEcho_keeps_iff spacedSetup (.resting (some euroBot) none)).mp h
    rcases hsafe with hvalid | ⟨henabled, -⟩
    · revert hvalid
      decide +kernel
    · cases henabled
  · intro h
    have hsafe : GitHubEchoSafe spacedSetup [] :=
      (githubEcho_keeps_iff spacedSetup (.resting (some euroBot) none)).mp h
    rcases hsafe with ⟨-, htrim⟩ | henv | hsame
    · revert htrim
      decide +kernel
    · revert henv
      decide +kernel
    · revert hsame
      decide +kernel

end AutoDeploy
