import AutoDeploy.AppRequests
import AutoDeploy.Bootstrap
import AutoDeploy.SecretRevocation

namespace AutoDeploy

open Interleaving

/-- A call of a store that does not write the empty secret. -/
def Call.GivesSecret : Call → Prop
  | .createApp _ secret | .rotateSecret _ secret => secret ≠ ""
  | .createAppRequest req => ∀ body, req.body = some body → body.webhookSecretOf ≠ ""
  | _ => True

/-- What the reply of a request says about the tables. -/
def RequestReturns (rt : Runtime) : Request → List ServerStep → RequestReply → Prop
  | .other call _, own, .other value => StoreReturns rt call own value
  | _, _, _ => True

section Requests

variable {rt : Runtime} {own : List ServerStep} {α : Type}

/-- Every action is one of a call that a handler has validated. -/
abbrev RequestSafe (rt : Runtime) (own : List ServerStep) (p : Op α)
    (Q : List ServerStep → α → Prop) : Prop :=
  p.Safe (fun _ => True)
    (fun own step => ∃ call : Call, call.GivesSecret ∧ StoreAction rt call own step) Q own

theorem StoreSafe.request {call : Call} {p : Op α} {Q : List ServerStep → α → Prop}
    (h : StoreSafe rt call own p Q) (hgives : call.GivesSecret) : RequestSafe rt own p Q :=
  Prog.Safe.imp h (fun _ _ hs => ⟨call, hgives, hs⟩) fun _ _ hq => hq

theorem requireField_nil {value message : String} (h : requireField value message = []) :
    value ≠ "" := by
  intro hv
  simp [requireField, hv] at h

theorem validated_secret {body : AdminAPIAppRequest}
    (h : validateAdminAPIAppRequest body true = []) : body.webhookSecretOf ≠ "" := by
  unfold validateAdminAPIAppRequest at h
  obtain ⟨-, hsecret⟩ := List.append_eq_nil_iff.mp h
  exact requireField_nil hsecret

theorem request_getApp {id : String} :
    RequestSafe rt own (getApp id) fun own' _ => Settles own own' := by
  have h : StoreSafe rt .listApps own (getApp id) fun own' _ => Settles own own' := store_getApp
  exact h.request trivial

theorem request_createAppForm {fields : AppFields} {secret : String} :
    RequestSafe rt own (createAppForm rt.hashSecret fields secret) fun own' _ =>
      Settles own own' := by
  unfold createAppForm
  dsimp only
  split
  next => exact settles_refl own
  next herrs =>
    have hsecret : secret ≠ "" := by
      obtain ⟨-, hrequired⟩ := List.append_eq_nil_iff.mp (not_not.mp herrs)
      exact requireField_nil hrequired
    have hcreate : StoreSafe rt (.createApp fields secret) own
        (createApp rt.hashSecret fields secret) fun own' _ => Settles own own' :=
      store_createApp rfl
    apply Prog.safe_bind (hcreate.request hsecret)
    intro own₁ value hs₁
    split <;> exact hs₁

theorem request_updateWithOptionalSecret {id : String} {fields : AppFields} {secret : String}
    {enabled : Bool} :
    RequestSafe rt own (updateWithOptionalSecret rt.hashSecret id fields secret enabled)
      fun own' _ => Settles own own' := by
  have hupdate : StoreSafe rt (.updateApp id fields secret enabled) own
      (updateWithOptionalSecret rt.hashSecret id fields secret enabled) fun own' value =>
        Settles own own' ∧ (value = .ok () → WroteApps rt _ own') :=
    store_updateApp rfl
  exact (hupdate.request trivial).mono fun _ _ h => h.1

theorem request_updateAppForm {id : String} {fields : AppFields} {secret : String} :
    RequestSafe rt own (updateAppForm rt.hashSecret id fields secret) fun own' _ =>
      Settles own own' := by
  unfold updateAppForm
  apply Prog.safe_bind request_getApp
  rintro own₁ (e | app) hs₁
  · exact hs₁
  · dsimp only
    split
    next => exact hs₁
    next =>
      apply Prog.safe_bind request_updateWithOptionalSecret
      intro own₂ value hs₂
      split
      next => exact hs₁.trans hs₂
      next => exact hs₁.trans hs₂
      next =>
        split
        next => exact hs₁.trans hs₂
        next hsecret =>
          have hrotate : StoreSafe rt (.rotateSecret id secret) own₂
              (rotateSecret rt.hashSecret id secret) fun own' value =>
                Settles own₂ own' ∧ (value = .ok () → WroteApps rt _ own') :=
            store_updateApp rfl
          apply Prog.safe_bind (hrotate.request hsecret)
          intro own₃ value hs₃
          split <;> exact (hs₁.trans hs₂).trans hs₃.1

theorem request_updateAppRequest {id : String} {req : AdminRequest AdminAPIAppRequest} :
    RequestSafe rt own (updateAppRequest rt.hashSecret id req) fun own' _ =>
      Settles own own' := by
  unfold updateAppRequest
  split
  next => exact settles_refl own
  next =>
    apply Prog.safe_bind request_getApp
    rintro own₁ (e | app) hs₁
    · exact hs₁
    · dsimp only
      split
      next => exact hs₁
      next body =>
        split
        next => exact hs₁
        next =>
          apply Prog.safe_bind request_updateWithOptionalSecret
          intro own₂ value hs₂
          split
          next => exact hs₁.trans hs₂
          next => exact hs₁.trans hs₂
          next =>
            apply Prog.safe_bind request_getApp
            intro own₃ value hs₃
            split <;> exact (hs₁.trans hs₂).trans hs₃

/-- A creation without a secret is refused before it comes to the store. -/
theorem request_createAppRequest {req : AdminRequest AdminAPIAppRequest} :
    RequestSafe rt [] (createAppRequest rt.hashSecret req) fun own' _ => Settles [] own' := by
  by_cases hgives : Call.GivesSecret (.createAppRequest req)
  · have hcreate : StoreSafe rt (.createAppRequest req) [] (createAppRequest rt.hashSecret req)
        fun own' _ => Settles [] own' := store_createAppRequest rfl
    exact hcreate.request hgives
  · unfold createAppRequest
    split
    next => exact settles_refl []
    next =>
      split
      next => exact settles_refl []
      next body hbody =>
        have herrs : validateAdminAPIAppRequest body true ≠ [] := by
          intro hvalid
          refine hgives fun other hother => ?_
          cases hbody.symm.trans hother
          exact validated_secret hvalid
        simp only [herrs, ne_eq, not_false_eq_true, ↓reduceIte]
        exact settles_refl []

theorem program_serve (rt : Runtime) (request : Request) :
    RequestSafe rt [] (rt.serve request) fun own value =>
      Settles [] own ∧ RequestReturns rt request own value := by
  cases request with
  | createForm fields secret =>
    exact Prog.safe_map (request_createAppForm.mono fun _ _ h => ⟨h, trivial⟩)
  | updateForm id fields secret =>
    exact Prog.safe_map (request_updateAppForm.mono fun _ _ h => ⟨h, trivial⟩)
  | update id req =>
    exact Prog.safe_map (request_updateAppRequest.mono fun _ _ h => ⟨h, trivial⟩)
  | other call direct =>
    apply Prog.safe_map
    by_cases hcreate : ∃ req, call = .createAppRequest req
    · obtain ⟨req, rfl⟩ := hcreate
      exact Prog.safe_map (request_createAppRequest.mono fun _ _ h => ⟨h, trivial⟩)
    · have hgives : call.GivesSecret := by
        cases call with
        | createApp | rotateSecret => cases direct
        | createAppRequest req => exact absurd ⟨req, rfl⟩ hcreate
        | _ => trivial
      exact (program_store rt call).request hgives

end Requests

/-- No app has the secret that an empty bearer token resolves, whether it is enabled or not. -/
def Apps.NoEmptySecret (hashSecret : String → String) (apps : Apps) : Prop :=
  ∀ app ∈ apps.rows, app.webhookSecretHash ≠ hashSecret ""

section Step

variable {rt : Runtime} {call : Call} {own : List ServerStep} {step : ServerStep}

theorem appUpdate_hash {id : String} {set : App → App}
    (hcall : call.appUpdate rt = some (id, set)) (hgives : call.GivesSecret) (app : App) :
    (set app).webhookSecretHash = app.webhookSecretHash ∨
      ∃ secret, secret ≠ "" ∧ (set app).webhookSecretHash = rt.hashSecret secret := by
  cases call with
  | updateApp target fields secret enabled =>
    cases hcall
    by_cases hsecret : secret = ""
    · exact Or.inl (by simp [hsecret])
    · exact Or.inr ⟨secret, hsecret, by simp [hsecret]⟩
  | rotateSecret target secret =>
    cases hcall
    exact Or.inr ⟨secret, hgives, rfl⟩
  | setEnabled target enabled =>
    cases hcall
    exact Or.inl rfl
  | _ => cases hcall

theorem appCreated_secret {fields : AppFields} {secret : String}
    (hcall : call.appCreated = some (fields, secret)) (hgives : call.GivesSecret) :
    secret ≠ "" := by
  cases call with
  | createApp =>
    cases hcall
    exact hgives
  | createAppRequest req =>
    obtain ⟨body, hbody, he⟩ := Option.map_eq_some_iff.mp hcall
    cases he
    exact hgives body hbody
  | _ => cases hcall

theorem noEmptySecret_step
    (hempty : ∀ secret, rt.hashSecret secret = rt.hashSecret "" → secret = "")
    (h : StoreAction rt call own step) (hgives : call.GivesSecret)
    (hbefore : step.before.apps.NoEmptySecret rt.hashSecret) :
    step.after.apps.NoEmptySecret rt.hashSecret := by
  cases h with
  | @created fields secret id apps hcreated hinsert hafter =>
    intro app hm
    rw [hafter] at hm
    have hrows : apps.rows = step.before.apps.rows ++ [fields.newApp id (rt.hashSecret secret)] :=
      Apps.insert_rows hinsert
    rw [hrows] at hm
    rcases List.mem_append.mp hm with hold | hnew
    · exact hbefore app hold
    · rw [List.mem_singleton.mp hnew]
      exact fun he => appCreated_secret hcreated hgives (hempty secret he)
  | @updated id set n apps hupdated hupdate hafter =>
    intro app hm
    rw [hafter] at hm
    have hrows := (Apps.update_rows hupdate).2
    rw [hrows] at hm
    obtain ⟨old, hold, rfl⟩ := List.mem_map.mp hm
    have hkept := hbefore old hold
    split
    next =>
      rcases appUpdate_hash hupdated hgives old with hsame | ⟨secret, hsecret, hhash⟩
      · rw [hsame]
        exact hkept
      · rw [hhash]
        exact fun he => hsecret (hempty secret he)
    next => exact hkept
  | deleted _ hdelete hafter =>
    intro app hm
    rw [hafter, deleteApp_rows hdelete] at hm
    exact hbefore app (List.mem_filter.mp hm).1
  | reads h => rw [h]; exact hbefore
  | locksActive _ h | unlocksActive _ h | storesActive _ _ h | dropsActive _ h
  | locksSecrets _ h | unlocksSecrets _ h | storesSecrets _ _ h | dropsSecrets _ h
  | inserted _ _ h | rewritten _ _ h | savedEnv _ h | savedArgs _ h => rw [h]; exact hbefore

end Step

section Boot

variable {rt : Runtime} {env : String → Option String} {s : Server} {own : List ServerStep}

/-- What the bootstrap leaves of a server: it has created one app at most, in an empty table. -/
structure Bootstrapped (rt : Runtime) (legacy : Option LegacyBootstrapConfig)
    (before after : Server) : Prop where
  apps : after.apps = before.apps ∨ before.apps.rows = [] ∧ ∃ config fields id,
    legacy = some config ∧
      after.apps.rows = [AppFields.newApp fields id (rt.hashSecret config.secret)]
  cache : after.secretHashCache = before.secretHashCache ∨ after.secretHashCache = none

theorem wp_query {α : Type} {select : Server → α} :
    (query select).Wp (fun _ after value => s = after ∧ ∀ a, value = .ok a → a = select s)
      own s := by
  apply Prog.wp_atomic
  intro k
  cases k.fault with
  | some text => exact ⟨rfl, by simp⟩
  | none =>
    refine ⟨rfl, ?_⟩
    intro a ha
    cases ha
    rfl

theorem wp_exec {α η : Type} {other : String → η}
    {statement : Server → Except η (α × Server × List StoreEvent)}
    {Q : Server → Except η α → Prop} (failed : ∀ e, Q s (.error e))
    (done : ∀ value after events, statement s = .ok (value, after, events) → Q after (.ok value)) :
    (exec other statement).Wp (fun _ after value => Q after value) own s := by
  apply Prog.wp_atomic
  intro k
  cases k.fault with
  | some text => exact failed _
  | none =>
    cases hs : statement s with
    | error e => exact failed e
    | ok out => exact done out.1 out.2.1 out.2.2 hs

/-- A statement that creates an app in an empty table, and the invalidation after it. -/
structure CreatesFirst (fields : AppFields) (hash : String) (before after : Server) : Prop where
  apps : after.apps = before.apps ∨ ∃ id, after.apps.rows = [fields.newApp id hash]
  cache : after.secretHashCache = before.secretHashCache ∨ after.secretHashCache = none

theorem createsFirst_refl {fields : AppFields} {hash : String} :
    CreatesFirst fields hash s s :=
  ⟨Or.inl rfl, Or.inl rfl⟩

theorem wp_createApp {fields : AppFields} {secret : String} (hrows : s.apps.rows = []) :
    (createApp rt.hashSecret fields secret).Wp (fun _ after _ =>
      CreatesFirst fields (rt.hashSecret secret) s after) own s := by
  unfold createApp
  refine Prog.wp_bind (P := fun _ after _ => s = after) ?_ ?_
  · apply Prog.wp_atomic
    intro k
    cases k.fault with
    | some text => rfl
    | none => rfl
  rintro own₁ _ (e | id) rfl
  · exact createsFirst_refl
  refine Prog.wp_bind (P := fun _ after _ =>
    CreatesFirst fields (rt.hashSecret secret) s after) ?_ ?_
  · apply wp_exec
    · exact fun _ => createsFirst_refl
    intro value after events hs
    cases hi : s.apps.insert (fields.newApp id (rt.hashSecret secret)) with
    | error e =>
      simp only [AppFields.newApp] at hi
      simp only [hi] at hs
      cases hs
    | ok apps =>
      have hcreated : apps.rows = [fields.newApp id (rt.hashSecret secret)] := by
        rw [Apps.insert_rows hi, hrows]
        rfl
      simp only [AppFields.newApp] at hi
      simp only [hi] at hs
      cases hs
      exact ⟨Or.inr ⟨id, hcreated⟩, Or.inl rfl⟩
  rintro own₂ s₂ (e | _) hcreates
  · exact hcreates
  refine Prog.wp_bind (P := fun _ after _ =>
    CreatesFirst fields (rt.hashSecret secret) s after) ?_ ?_
  · intro k
    exact ⟨hcreates.apps, Or.inr rfl⟩
  rintro own₃ s₃ - hdropped
  unfold getApp
  refine Prog.wp_bind wp_query ?_
  rintro own₄ _ (e | _ | app) ⟨rfl, -⟩
  · exact hdropped
  · exact hdropped
  · exact hdropped

theorem wp_bootstrapIfEmpty {legacy : Option LegacyBootstrapConfig} :
    (bootstrapIfEmpty rt.hashSecret legacy).Wp (fun _ after _ => Bootstrapped rt legacy s after)
      own s := by
  have hsame : Bootstrapped rt legacy s s := ⟨Or.inl rfl, Or.inl rfl⟩
  unfold bootstrapIfEmpty
  cases legacy with
  | none => exact hsame
  | some config =>
    refine Prog.wp_bind wp_query ?_
    rintro own₁ _ (e | count) ⟨rfl, hcount⟩
    · exact hsame
    dsimp only
    split
    next =>
      refine Prog.wp_bind wp_query ?_
      rintro own₂ _ (e | _ | app) ⟨rfl, -⟩
      · exact hsame
      · exact hsame
      · exact hsame
    next hnone =>
      have hlength := hcount count rfl
      have hrows : s.apps.rows = [] := List.eq_nil_of_length_eq_zero (by omega)
      refine Prog.wp_bind (wp_createApp hrows) ?_
      intro own₂ after value hcreates
      have hboots : Bootstrapped rt (some config) s after := by
        refine ⟨?_, hcreates.cache⟩
        rcases hcreates.apps with hkept | ⟨id, hcreated⟩
        · exact Or.inl hkept
        · exact Or.inr ⟨hrows, config, _, id, rfl, hcreated⟩
      cases value with
      | error e => exact hboots
      | ok app => exact hboots

/-- Where nothing fails, the first app is there before the server starts. -/
theorem bootstrap_creates {config : LegacyBootstrapConfig} {jobs : Jobs}
    (h : loadLegacyBootstrapConfig env = some config) : ∃ app,
      (rt.bootstrap env (fun _ => ⟨none, ""⟩) (.started jobs .empty)).value = .ok (some app) ∧
      (rt.bootstrap env (fun _ => ⟨none, ""⟩) (.started jobs .empty)).state.apps.rows = [app] ∧
      app.enabled = true ∧ app.webhookSecretHash = rt.hashSecret config.secret := by
  unfold Runtime.bootstrap
  rw [h]
  exact ⟨_, rfl, rfl, rfl, rfl⟩

end Boot

/-- The configurations of a server that was started in an environment on a database. -/
def Runtime.Serves (rt : Runtime) (env : String → Option String) (s : Server)
    (cfg : RequestConfig) : Prop :=
  ∃ answers app, (rt.bootstrap env answers s).value = .ok app ∧
    Interleaving.Reaches rt.serve (rt.bootstrap env answers s).state cfg

/-- No enabled app is reachable with an empty secret. -/
structure EmptySecretRefused (rt : Runtime) (cfg : RequestConfig) : Prop where
  hashes : ∀ app ∈ cfg.shared.apps.rows, app.enabled = true →
    app.webhookSecretHash ≠ rt.hashSecret ""
  admissions : ∀ t tag direct result,
    .returned t (.other (.admissionAdmit "" tag) direct) (.other (.admitted result)) ∈
      cfg.history →
    result.app = none ∧ (result.outcome = .unauthorized ∨ result.outcome = .error)

section Runs

variable {rt : Runtime} {env : String → Option String} {s₀ : Server} {cfg : RequestConfig}

theorem requests_follow (rt : Runtime) : secretHashes.Follows rt.serve where
  safe request := (program_serve rt request).imp
    (fun _ _ h => by obtain ⟨call, -, hs⟩ := h; exact hs.movesSecrets) fun _ _ h => h.1.secrets id

theorem requests_explained (reach : Interleaving.Reaches rt.serve s₀ cfg) :
    Explained (fun _ own step => ∃ call : Call, call.GivesSecret ∧ StoreAction rt call own step)
      (fun request own value => Settles [] own ∧ RequestReturns rt request own value)
      cfg.history :=
  reaches_explained (program_serve rt) (fun _ _ _ _ _ => trivial) trivial reach

theorem visited_noEmptySecret
    (hempty : ∀ secret, rt.hashSecret secret = rt.hashSecret "" → secret = "")
    (reach : Interleaving.Reaches rt.serve s₀ cfg) (start : s₀.apps.NoEmptySecret rt.hashSecret) :
    ∀ s ∈ visited s₀ cfg.history, s.apps.NoEmptySecret rt.hashSecret := by
  refine visited_invariant reach (P := fun s => s.apps.NoEmptySecret rt.hashSecret) start ?_
  intro step hm hbefore
  obtain ⟨t, request, hacted⟩ := mem_steps.mp hm
  obtain ⟨pre, post, hsplit⟩ := List.append_of_mem hacted
  obtain ⟨call, hgives, hstore⟩ := requests_explained reach pre _ post hsplit
  exact noEmptySecret_step hempty hstore hgives hbefore

/-- An admission resolves its token in the apps of some moment of the run. -/
theorem emptyToken_refused (hcache : s₀.secretHashCache = none)
    (hempty : ∀ secret, rt.hashSecret secret = rt.hashSecret "" → secret = "")
    (reach : Interleaving.Reaches rt.serve s₀ cfg) (start : s₀.apps.NoEmptySecret rt.hashSecret)
    {t : ℕ} {tag : String} {direct : (Call.admissionAdmit "" tag).validated = false}
    {result : AdmissionResult}
    (hm : .returned t (.other (.admissionAdmit "" tag) direct) (.other (.admitted result)) ∈
      cfg.history) :
    result.app = none ∧ (result.outcome = .unauthorized ∨ result.outcome = .error) := by
  obtain ⟨pre, post, hsplit⟩ := List.append_of_mem hm
  have hreturns := (requests_explained reach pre _ post hsplit).2
  rw [← ownSteps_final reach hsplit] at hreturns
  rcases hreturns with ⟨herror, happ⟩ | ⟨m, hread, hunauthorized, happ⟩
  · exact ⟨happ, Or.inr herror⟩
  obtain ⟨early, late, hlate, rfl⟩ :=
    SnapshotCache.read_moment (requests_follow rt) hcache reach hread
  obtain ⟨there, hreach, hhistory⟩ := reaches_prefix reach hlate
  have hnone := visited_noEmptySecret hempty hreach start _ now_mem_visited
  rw [hhistory] at hnone
  have hfind : result.app = none := by
    refine happ.trans ((enabledApps_find _ _).trans (bySecretHash_none.mpr ?_))
    intro app happ hhash
    exact absurd hhash (hnone app happ)
  exact ⟨hfind, Or.inl (hunauthorized.mpr hfind)⟩

end Runs

/-- An empty bearer token is refused in every run exactly where the bootstrap does not create its
app without `WEBHOOK_SECRET`. -/
theorem emptySecret_iff {rt : Runtime}
    (hempty : ∀ secret, rt.hashSecret secret = rt.hashSecret "" → secret = "")
    {env : String → Option String} {jobs : Jobs} {apps : Apps}
    (happs : apps.NoEmptySecret rt.hashSecret) :
    (∀ cfg, rt.Serves env (.started jobs apps) cfg → EmptySecretRefused rt cfg) ↔
      (apps.rows ≠ [] ∨ envUnset (env "WEBHOOK_SECRET") = false ∨
        ∀ name ∈ bootstrapVariables, envUnset (env name) = true) := by
  constructor
  · intro hrefused
    by_contra hpartial
    simp only [not_or, not_not, Bool.not_eq_false] at hpartial
    obtain ⟨hrows, hsecret, hset⟩ := hpartial
    obtain rfl : apps = .empty := Apps.eq_of_rows hrows
    cases hlegacy : loadLegacyBootstrapConfig env with
    | none => exact hset (loadLegacy_none.mp hlegacy).2
    | some config =>
      obtain ⟨app, hvalue, hcreated, henabled, hhash⟩ :=
        @bootstrap_creates rt env config jobs hlegacy
      have hserved := (hrefused _ ⟨_, _, hvalue, .start⟩).hashes app (by rw [hcreated]; simp)
      refine hserved henabled ?_
      rw [hhash, loadLegacy_some hlegacy, envUnset_getD.mp hsecret]
  · rintro hcondition cfg ⟨answers, app, hvalue, reach⟩
    have hwp : (bootstrapIfEmpty rt.hashSecret (loadLegacyBootstrapConfig env)).Wp
        (fun _ after _ =>
          Bootstrapped rt (loadLegacyBootstrapConfig env) (.started jobs apps) after)
        [] (.started jobs apps) := wp_bootstrapIfEmpty
    have hboots := Prog.alone_wp answers hwp
    have hcache : (rt.bootstrap env answers (.started jobs apps)).state.secretHashCache = none := by
      rcases hboots.cache with hsame | hdropped
      · exact hsame
      · exact hdropped
    have hstart : (rt.bootstrap env answers (.started jobs apps)).state.apps.NoEmptySecret
        rt.hashSecret := by
      rcases hboots.apps with hsame | ⟨hrows, config, fields, id, hlegacy, hcreated⟩
      · intro other hm
        rw [Runtime.bootstrap, hsame] at hm
        exact happs other hm
      · intro other hm
        rw [Runtime.bootstrap, hcreated, List.mem_singleton] at hm
        subst hm
        intro hhash
        have hsecret := hempty config.secret hhash
        rw [loadLegacy_some hlegacy, ← envUnset_getD] at hsecret
        rcases hcondition with hsome | hset | hunset
        · exact hsome hrows
        · rw [hsecret] at hset
          cases hset
        · rw [loadLegacy_none.mpr ⟨hsecret, hunset⟩] at hlegacy
          cases hlegacy
    exact ⟨fun other hm _ => visited_noEmptySecret hempty reach hstart _
      (shared_mem_visited reach) other hm, fun t tag direct result hm =>
      emptyToken_refused hcache hempty reach hstart hm⟩

/-- SHA-256 in hexadecimal, of the empty secret, beside a function that tells the others apart. -/
def sampleHash (secret : String) : String :=
  if secret = "" then "e3b0c44298fc1c149afbf4c8996fb92427ae41e4649b934ca495991b7852b855"
  else "#" ++ secret

theorem sampleHash_empty (secret : String) (h : sampleHash secret = sampleHash "") :
    secret = "" := by
  by_contra hne
  have hhead : ("#" ++ secret).toList.head? = some '#' := by simp
  simp only [sampleHash, hne, ↓reduceIte] at h
  rw [h] at hhead
  cases hhead

/-- An environment in which only the path of the binary is set. -/
def pathOnly (name : String) : Option String :=
  if name = "DEPLOY_BINARY_PATH" then some "/opt/api" else none

def secretSet (name : String) : Option String :=
  if name = "WEBHOOK_SECRET" then some "s3cret" else pathOnly name

/-- A webhook with an empty bearer token comes to a server on an empty database. -/
def emptyToken (env : String → Option String) : RequestConfig :=
  play (Runtime.serve ⟨2, sampleHash, id⟩)
    (Runtime.bootstrap ⟨2, sampleHash, id⟩ env (fun _ => ⟨none, "a1"⟩)
      (.started .empty .empty)).state
    (solo (.other (.admissionAdmit "" "v1") rfl) 0 18 ⟨none, "j1"⟩)

def tokenOutcomes (cfg : RequestConfig) : List AdmissionOutcome :=
  cfg.history.filterMap fun record =>
    match record with
    | .returned _ _ (.other (.admitted result)) => some result.outcome
    | _ => none

theorem emptySecret_iff_secretSet : tokenOutcomes (emptyToken secretSet) = [.unauthorized] ∧
    EmptySecretRefused ⟨2, sampleHash, id⟩ (emptyToken secretSet) := by
  have hempty : Apps.empty.NoEmptySecret sampleHash := by simp [Apps.NoEmptySecret, Apps.empty]
  refine ⟨by decide +kernel, ?_⟩
  exact (emptySecret_iff sampleHash_empty hempty).mpr (Or.inr (Or.inl rfl)) _
    ⟨_, _, rfl, reaches_play _ _ _⟩

theorem pathOnly_accepts :
    Runtime.Serves ⟨2, sampleHash, id⟩ pathOnly (.started .empty .empty) (emptyToken pathOnly) ∧
      tokenOutcomes (emptyToken pathOnly) = [.queued] ∧
      ¬ EmptySecretRefused ⟨2, sampleHash, id⟩ (emptyToken pathOnly) := by
  refine ⟨⟨_, _, rfl, reaches_play _ _ _⟩, by decide +kernel, ?_⟩
  intro h
  exact h.hashes ⟨"a1", "default", sampleHash "", "/opt/api", "", "", "", true⟩ (by decide +kernel)
    rfl rfl

end AutoDeploy
