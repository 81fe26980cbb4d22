import AutoDeploy.StoreActionCalls

namespace AutoDeploy

open Interleaving

/-- The uncached query: `... WHERE webhook_secret_hash = ? AND enabled = 1`. -/
def Apps.bySecretHash (apps : Apps) (hash : String) : Option App :=
  apps.rows.find? fun app => app.webhookSecretHash == hash && app.enabled

theorem enabledApps_find (apps : Apps) (hash : String) :
    (apps.enabledApps.find? fun app => app.webhookSecretHash == hash) = apps.bySecretHash hash := by
  rw [Apps.enabledApps, List.find?_filter, Apps.bySecretHash]
  congr 1
  funext app
  by_cases h : app.webhookSecretHash = hash <;> simp [h]

theorem bySecretHash_none {apps : Apps} {hash : String} : apps.bySecretHash hash = none ↔
    ∀ app ∈ apps.rows, app.webhookSecretHash = hash → app.enabled = false := by
  simp [Apps.bySecretHash]

theorem bySecretHash_some {apps : Apps} {hash : String} {app : App} :
    apps.bySecretHash hash = some app ↔
      app ∈ apps.rows ∧ app.webhookSecretHash = hash ∧ app.enabled = true := by
  constructor
  · intro h
    have hsome := List.find?_some h
    rw [Bool.and_eq_true, beq_iff_eq] at hsome
    exact ⟨List.mem_of_find?_eq_some h, hsome⟩
  · rintro ⟨hm, rfl, henabled⟩
    cases hf : apps.bySecretHash app.webhookSecretHash with
    | none => rw [bySecretHash_none.mp hf app hm rfl] at henabled; cases henabled
    | some other =>
      have hsome := List.find?_some hf
      rw [Bool.and_eq_true, beq_iff_eq] at hsome
      rw [List.inj_on_of_nodup_map apps.uniqueHash (List.mem_of_find?_eq_some hf) hm hsome.1]

/-- The app has this secret, whether it is enabled or not. -/
def Apps.HasSecret (apps : Apps) (id hash : String) : Prop :=
  ∃ app ∈ apps.rows, app.id = id ∧ app.webhookSecretHash = hash

def Apps.Resolves (apps : Apps) (id hash : String) : Prop :=
  ∃ app, apps.bySecretHash hash = some app ∧ app.id = id

/-- The writes after which the secret of an app is no longer to work: a deletion, a disabling, and
a change to a secret with another hash. -/
def Call.Revokes (rt : Runtime) : Call → String → String → Prop
  | .updateApp target _ secret enabled, id, hash =>
    target = id ∧ (enabled = false ∨ secret ≠ "" ∧ rt.hashSecret secret ≠ hash)
  | .rotateSecret target newSecret, id, hash => target = id ∧ rt.hashSecret newSecret ≠ hash
  | .setEnabled target enabled, id, _ => target = id ∧ enabled = false
  | .deleteApp target, id, _ => target = id
  | _, _, _ => False

section Commit

variable {rt : Runtime} {call : Call} {step : ServerStep} {id hash : String}

/-- A row that a write leaves behind is no longer the one that the secret belonged to. -/
theorem commits_revoked (h : CommitsApps rt call step) (hrevokes : call.Revokes rt id hash)
    (hsecret : step.before.apps.HasSecret id hash) :
    step.after.apps.bySecretHash hash = none := by
  obtain ⟨owner, howner, rfl, rfl⟩ := hsecret
  have honly : ∀ app ∈ step.before.apps.rows, app.webhookSecretHash = owner.webhookSecretHash →
      app.id = owner.id := fun app hm he =>
    congrArg App.id (List.inj_on_of_nodup_map step.before.apps.uniqueHash hm howner he)
  rw [bySecretHash_none]
  intro app hm hhash
  cases h with
  | @updated target set n hcall _ hupdate =>
    rw [(Apps.update_rows hupdate).2] at hm
    obtain ⟨old, hold, rfl⟩ := List.mem_map.mp hm
    by_cases htarget : old.id = target
    · simp only [htarget, beq_self_eq_true, ↓reduceIte] at hhash ⊢
      cases call with
      | updateApp id fields secret enabled =>
        cases hcall
        rcases hrevokes.2 with hdisabled | ⟨hsome, hne⟩
        · exact hdisabled
        · simp only [hsome, ↓reduceIte] at hhash
          exact absurd hhash hne
      | rotateSecret id newSecret =>
        cases hcall
        exact absurd hhash hrevokes.2
      | setEnabled id enabled =>
        cases hcall
        exact hrevokes.2
      | _ => cases hcall
    · rw [if_neg (by simpa using htarget)] at hhash
      have hid := honly old hold hhash
      refine absurd ?_ htarget
      rw [hid]
      cases call with
      | updateApp id fields secret enabled => cases hcall; exact hrevokes.1.symm
      | rotateSecret id newSecret => cases hcall; exact hrevokes.1.symm
      | setEnabled id enabled => cases hcall; exact hrevokes.1.symm
      | _ => cases hcall
  | @deleted target hcall hdelete =>
    subst hcall
    rw [deleteApp_rows hdelete] at hm
    obtain ⟨hold, hne⟩ := List.mem_filter.mp hm
    have hid := honly app hold hhash
    rw [hid, show owner.id = target from hrevokes.symm] at hne
    simp at hne

theorem commits_rotated {newSecret : String}
    (h : CommitsApps rt (.rotateSecret id newSecret) step)
    (henabled : ∃ app ∈ step.before.apps.rows, app.id = id ∧ app.enabled = true) :
    step.after.apps.Resolves id (rt.hashSecret newSecret) := by
  obtain ⟨app, hm, rfl, henabled⟩ := henabled
  cases h with
  | updated hcall _ hupdate =>
    cases hcall
    refine ⟨{ app with webhookSecretHash := rt.hashSecret newSecret }, ?_, rfl⟩
    rw [bySecretHash_some]
    refine ⟨?_, rfl, henabled⟩
    rw [(Apps.update_rows hupdate).2]
    exact List.mem_map.mpr ⟨app, hm, by simp⟩
  | deleted hcall _ => cases hcall

end Commit

/-- What holds of every lookup of a secret in a run. The writes `later` are those between the
commit of a write that had returned when the lookup started, and the end of the lookup. -/
structure SecretsCoherent (rt : Runtime) (s₀ : Server) (cfg : ServerConfig) : Prop where
  /-- Unless a later write gives it to an enabled app again, a secret that was taken from an app
  is not accepted. -/
  revoked : ∀ pre mid post t bearerToken tag result,
    Spans cfg.history pre mid post t (.admissionAdmit bearerToken tag) (.admitted result) →
    ∀ w call id, .returned w call (.appWritten (.ok ())) ∈ pre →
    call.Revokes rt id (rt.hashSecret bearerToken) →
    ∃ step back, CommittedIn rt call (pre ++ .called t (.admissionAdmit bearerToken tag) :: mid) w
        step back ∧
      (step.before.apps.HasSecret id (rt.hashSecret bearerToken) →
        (∀ later ∈ steps back, later.before.apps.bySecretHash (rt.hashSecret bearerToken) = none →
          later.after.apps.bySecretHash (rt.hashSecret bearerToken) = none) →
        result.app = none ∧ (result.outcome = .unauthorized ∨ result.outcome = .error))
  /-- Unless a later write takes it away, the new secret of an enabled app resolves to it. -/
  rotated : ∀ pre mid post t bearerToken tag result,
    Spans cfg.history pre mid post t (.admissionAdmit bearerToken tag) (.admitted result) →
    ∀ w id, .returned w (.rotateSecret id bearerToken) (.appWritten (.ok ())) ∈ pre →
    ∃ step back, CommittedIn rt (.rotateSecret id bearerToken)
        (pre ++ .called t (.admissionAdmit bearerToken tag) :: mid) w step back ∧
      ((∃ app ∈ step.before.apps.rows, app.id = id ∧ app.enabled = true) →
        (∀ later ∈ steps back, later.before.apps.Resolves id (rt.hashSecret bearerToken) →
          later.after.apps.Resolves id (rt.hashSecret bearerToken)) →
        (result.outcome = .error ∧ result.app = none) ∨ ∃ app, result.app = some app ∧ app.id = id)
  /-- With no write in flight `GetBySecretHash` answers as the uncached query. -/
  quiet : ∀ pre mid post t hash found,
    Spans cfg.history pre mid post t (.getBySecretHash hash) (.found (.ok found)) →
    (∀ u call step, .acted u call step ∈ pre ++ .called t (.getBySecretHash hash) :: mid →
      step.after.apps ≠ step.before.apps → ∃ value, .returned u call value ∈ pre) →
    found = (now s₀ (pre ++ .called t (.getBySecretHash hash) :: mid)).apps.bySecretHash hash

section Runs

variable {rt : Runtime} {jobs : Jobs} {apps : Apps} {cfg : ServerConfig}
  {pre mid post : ServerHistory} {t w : ℕ} {call : Call} {bearerToken tag : String}
  {result : AdmissionResult}

/-- The commit of a write that had returned before a lookup. What holds after it, and is kept by
the writes behind it, holds of the apps that the lookup reads. -/
theorem lookup_after_commit (reach : rt.Reaches (.started jobs apps) cfg) {lookup : Call}
    {value : Reply} (h : Spans cfg.history pre mid post t lookup value)
    (hreturned : .returned w call (.appWritten (.ok ())) ∈ pre) :
    ∃ step back, CommittedIn rt call (pre ++ .called t lookup :: mid) w step back ∧
      ∀ m, secretHashes.Read (ownSteps t cfg.history) m →
      ∀ P : Apps → Prop, P step.after.apps →
        (∀ later ∈ steps back, P later.before.apps → P later.after.apps) →
        ∃ apps : Apps, m = apps.enabledApps ∧ P apps := by
  obtain ⟨there, hreach, hhistory, -⟩ := reaches_span reach h
  have hmem : .returned w call (.appWritten (.ok ())) ∈ there.history := by
    rw [hhistory]
    exact List.mem_append_left _ hreturned
  obtain ⟨front, step, back, hsplit, hcommits, hclears⟩ := returned_commits hreach hmem
  refine ⟨step, back, ⟨hcommits, front, hhistory ▸ hsplit⟩, ?_⟩
  intro m hread P hP hkept
  obtain ⟨early, late, hlate, hm, hbefore⟩ :=
    (SnapshotCache.span_fresh (follows_secrets rt) rfl reach h hread).before
  obtain ⟨between, hearly, hback⟩ := hbefore front w call step back (hhistory ▸ hsplit) hclears
    ⟨call, _, hreturned⟩
  refine ⟨_, hm, ?_⟩
  have hcommit : early = (front ++ [.acted w call step]) ++ between := by rw [hearly]; simp
  obtain ⟨moment, hmoment, hhere⟩ := reaches_prefix hreach (hhistory.trans hlate)
  rw [hcommit] at hhere ⊢
  refine now_kept (P := fun s => P s.apps) hmoment hhere (by rwa [now_acted]) ?_
  intro later hlater
  refine hkept later ?_
  rw [hback, steps_append]
  exact List.mem_append_left _ hlater

/-- What an admission resolved, where it did not fail. -/
theorem admission_resolved {s₀ : Server} (reach : rt.Reaches s₀ cfg)
    (h : Spans cfg.history pre mid post t (.admissionAdmit bearerToken tag) (.admitted result)) :
    (result.outcome = .error ∧ result.app = none) ∨
      ∃ m, secretHashes.Read (ownSteps t cfg.history) m ∧
        (result.outcome = .unauthorized ↔ result.app = none) ∧
        result.app = m.find? fun app => app.webhookSecretHash == rt.hashSecret bearerToken :=
  returned_store reach h.returned

end Runs

/-- Over every interleaving of a started server the cache of `GetBySecretHash` hides no write. -/
theorem secrets_coherent {rt : Runtime} {jobs : Jobs} {apps : Apps} {cfg : ServerConfig}
    (reach : rt.Reaches (.started jobs apps) cfg) :
    SecretsCoherent rt (.started jobs apps) cfg where
  revoked pre mid post t bearerToken tag result h w call id hreturned hrevokes := by
    obtain ⟨step, back, hcommitted, hread⟩ := lookup_after_commit reach h hreturned
    refine ⟨step, back, hcommitted, ?_⟩
    intro hsecret hkept
    rcases admission_resolved reach h with ⟨herror, happ⟩ | ⟨m, hm, hunauthorized, happ⟩
    · exact ⟨happ, Or.inr herror⟩
    · obtain ⟨now, rfl, hnone⟩ := hread m hm
        (fun apps => apps.bySecretHash (rt.hashSecret bearerToken) = none)
        (commits_revoked hcommitted.1 hrevokes hsecret) hkept
      rw [enabledApps_find, hnone] at happ
      exact ⟨happ, Or.inl (hunauthorized.mpr happ)⟩
  rotated pre mid post t bearerToken tag result h w id hreturned := by
    obtain ⟨step, back, hcommitted, hread⟩ := lookup_after_commit reach h hreturned
    refine ⟨step, back, hcommitted, ?_⟩
    intro henabled hkept
    rcases admission_resolved reach h with hfailed | ⟨m, hm, -, happ⟩
    · exact Or.inl hfailed
    · obtain ⟨now, rfl, app, hsome, hid⟩ := hread m hm
        (fun apps => apps.Resolves id (rt.hashSecret bearerToken))
        (commits_rotated hcommitted.1 henabled) hkept
      rw [enabledApps_find, hsome] at happ
      exact Or.inr ⟨app, happ, hid⟩
  quiet pre mid post t hash found h hquiet := by
    obtain ⟨m, hread, rfl⟩ := returned_store reach h.returned found rfl
    rw [SnapshotCache.span_quiet (follows_secrets rt) rfl reach h hread hquiet]
    exact enabledApps_find _ hash

def apiFields : AppFields := ⟨"api", "/opt/api", "api.service", "acme/api", "api.tar.gz"⟩

/-- An app is disabled and enabled again, and then a webhook comes with its old secret. -/
def reenabled : List (Turn Choice Call) :=
  solo (.createApp apiFields "x") 0 5 ⟨none, "a1"⟩ ++
    solo (.setEnabled "a1" false) 1 3 ⟨none, ""⟩ ++ solo (.setEnabled "a1" true) 2 3 ⟨none, ""⟩ ++
    solo (.admissionAdmit "x" "v1") 3 18 ⟨none, "j1"⟩

def reenabledHistory : ServerHistory :=
  (play (Runtime.program ⟨2, id, id⟩) (.started .empty .empty) reenabled).history

theorem reenabled_accepts : ¬ ∀ (rt : Runtime) (jobs : Jobs) (apps : Apps) (cfg : ServerConfig),
    rt.Reaches (.started jobs apps) cfg →
    ∀ pre mid post t bearerToken tag result,
    Spans cfg.history pre mid post t (.admissionAdmit bearerToken tag) (.admitted result) →
    ∀ w call id, .returned w call (.appWritten (.ok ())) ∈ pre →
    call.Revokes rt id (rt.hashSecret bearerToken) →
    (∃ step ∈ ownSteps w pre, step.before.apps.HasSecret id (rt.hashSecret bearerToken)) →
    result.outcome = .unauthorized := by
  intro h
  have hspans : Spans reenabledHistory (reenabledHistory.take 14)
      ((reenabledHistory.drop 15).take 17) [] 3 (.admissionAdmit "x" "v1")
      (.admitted ⟨.queued, some (apiFields.newApp "a1" "x"), "v1", none⟩) := rfl
  have hreturned : .returned 1 (.setEnabled "a1" false) (.appWritten (.ok ())) ∈
      reenabledHistory.take 14 := List.mem_of_getElem? (i := 9) rfl
  have hsecret : ∃ step ∈ ownSteps 1 (reenabledHistory.take 14),
      step.before.apps.HasSecret "a1" "x" :=
    ⟨_, List.mem_of_getElem? (i := 0) rfl, apiFields.newApp "a1" "x",
      List.mem_of_getElem? (i := 0) rfl, rfl, rfl⟩
  have hunauthorized := h ⟨2, id, id⟩ .empty .empty _ (reaches_play _ _ reenabled) _ _ _ _ _ _ _
    hspans _ _ "a1" hreturned ⟨rfl, rfl⟩ hsecret
  cases hunauthorized

/-- The outcomes of the admissions that have returned. -/
def admissionOutcomes (history : ServerHistory) : List (ℕ × AdmissionOutcome) :=
  history.filterMap fun record =>
    match record with
    | .returned t _ (.admitted result) => some (t, result.outcome)
    | _ => none

/-- A webhook has queried for its rebuild when a rotation commits. It is still accepted, and the
ones that start after the rotation has returned are not unless they know the new secret. -/
def rotatedMeanwhile : List (Turn Choice Call) :=
  solo (.createApp apiFields "x") 0 5 ⟨none, "a1"⟩ ++
    solo (.admissionAdmit "x" "v1") 1 4 ⟨none, "j1"⟩ ++
    solo (.rotateSecret "a1" "y") 2 1 ⟨none, ""⟩ ++ List.replicate 14 (.run 1 ⟨none, "j1"⟩) ++
    List.replicate 2 (.run 2 ⟨none, ""⟩) ++ solo (.admissionAdmit "x" "v2") 3 7 ⟨none, "j2"⟩ ++
    solo (.admissionAdmit "y" "v2") 4 18 ⟨none, "j3"⟩

theorem secrets_coherent_rotatedMeanwhile :
    admissionOutcomes (play (Runtime.program ⟨2, id, id⟩) (.started .empty .empty)
      rotatedMeanwhile).history = [(1, .queued), (3, .unauthorized), (4, .queued)] ∧
    SecretsCoherent ⟨2, id, id⟩ (.started .empty .empty)
      (play (Runtime.program ⟨2, id, id⟩) (.started .empty .empty) rotatedMeanwhile) :=
  ⟨by decide +kernel, secrets_coherent (reaches_play _ _ rotatedMeanwhile)⟩

end AutoDeploy
