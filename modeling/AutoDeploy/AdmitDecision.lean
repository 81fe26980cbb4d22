import AutoDeploy.AdmitSteps
import AutoDeploy.SecretRevocation
import Mathlib.Data.Fintype.EquivFin

namespace AutoDeploy

open Interleaving

/-- The decision of `Admit` on tables that hold still. -/
inductive AdmitDecision (rt : Runtime) (s : Server) (token tag : String) : AdmissionResult → Prop
  | unauthorized : s.apps.bySecretHash (rt.hashSecret token) = none →
      AdmitDecision rt s token tag ⟨.unauthorized, none, "", none⟩
  | emptyTag {app : App} : s.apps.bySecretHash (rt.hashSecret token) = some app → tag = "" →
      AdmitDecision rt s token tag ⟨.badRequest, some app, "", none⟩
  | duplicate {app : App} : s.apps.bySecretHash (rt.hashSecret token) = some app → tag ≠ "" →
      s.jobs.HasActive app.id tag →
      AdmitDecision rt s token tag ⟨.duplicate, some app, tag, none⟩
  | invalidTag {app : App} {reason : TagError} :
      s.apps.bySecretHash (rt.hashSecret token) = some app → tag ≠ "" →
      ¬ s.jobs.HasActive app.id tag → validateTag tag = .error reason →
      AdmitDecision rt s token tag
        ⟨.badRequest, some app, tag, some (.queue (.invalidTag reason))⟩
  | queueFull {app : App} : s.apps.bySecretHash (rt.hashSecret token) = some app → tag ≠ "" →
      ¬ s.jobs.HasActive app.id tag → validateTag tag = .ok () →
      rt.maxPending ≤ (s.jobs.pendingCount app.id : Int) →
      AdmitDecision rt s token tag ⟨.error, some app, tag, some .queueFull⟩
  | queued {app : App} : s.apps.bySecretHash (rt.hashSecret token) = some app → tag ≠ "" →
      ¬ s.jobs.HasActive app.id tag → validateTag tag = .ok () →
      (s.jobs.pendingCount app.id : Int) < rt.maxPending →
      AdmitDecision rt s token tag ⟨.queued, some app, tag, none⟩

/-- The error of `Admit` where a statement or the random source has failed, behind the checks that
were passed before it. -/
inductive AdmitFault (rt : Runtime) (s : Server) (token tag : String) : AdmissionResult → Prop
  | resolving (cause : SqlError) : AdmitFault rt s token tag
      ⟨.error, none, "", some (.store (.sql "app_store: load secret hash cache: " cause))⟩
  | duplicates {app : App} (cause : SqlError) :
      s.apps.bySecretHash (rt.hashSecret token) = some app → tag ≠ "" →
      AdmitFault rt s token tag
        ⟨.error, some app, tag, some (.queue (.sql "deploy_queue: load active cache: " cause))⟩
  | enqueueing {app : App} (cause : SqlError) :
      s.apps.bySecretHash (rt.hashSecret token) = some app → tag ≠ "" →
      ¬ s.jobs.HasActive app.id tag → validateTag tag = .ok () →
      AdmitFault rt s token tag ⟨.error, some app, tag, some (.queue (.sql "" cause))⟩
  | naming {app : App} (cause : String) :
      s.apps.bySecretHash (rt.hashSecret token) = some app → tag ≠ "" →
      ¬ s.jobs.HasActive app.id tag → validateTag tag = .ok () →
      AdmitFault rt s token tag ⟨.error, some app, tag, some (.queue (.random cause))⟩

/-- The answer for a tag once the token has led to this app. -/
structure TagAnswers (rt : Runtime) (s : Server) (app : App) (tag : String)
    (result : AdmissionResult) : Prop where
  resolved : result.app = some app
  emptyTag : tag = "" → result.outcome = .badRequest
  duplicate : tag ≠ "" → (result.outcome = .duplicate ↔ s.jobs.HasActive app.id tag)
  invalidTag : tag ≠ "" → ¬ s.jobs.HasActive app.id tag →
    (result.outcome = .badRequest ↔ ∃ reason, validateTag tag = .error reason)
  queueFull : tag ≠ "" → ¬ s.jobs.HasActive app.id tag → validateTag tag = .ok () →
    (result.outcome = .error ∧ result.error = some .queueFull ↔
      rt.maxPending ≤ (s.jobs.pendingCount app.id : Int))
  queued : tag ≠ "" → ¬ s.jobs.HasActive app.id tag → validateTag tag = .ok () →
    (s.jobs.pendingCount app.id : Int) < rt.maxPending → result.outcome = .queued

/-- The answers of `Admit`, in the order in which they take precedence. -/
structure AdmitAnswers (rt : Runtime) (s : Server) (token tag : String)
    (result : AdmissionResult) : Prop where
  unauthorized : result.outcome = .unauthorized ↔
    ¬ ∃ app ∈ s.apps.rows, app.webhookSecretHash = rt.hashSecret token ∧ app.enabled = true
  authorized : ∀ app ∈ s.apps.rows, app.webhookSecretHash = rt.hashSecret token →
    app.enabled = true → TagAnswers rt s app tag result

section Decision

variable {rt : Runtime} {s : Server} {token tag : String} {app : App} {result : AdmissionResult}

theorem AdmitDecision.tagAnswers (h : AdmitDecision rt s token tag result)
    (happ : s.apps.bySecretHash (rt.hashSecret token) = some app) :
    TagAnswers rt s app tag result := by
  cases h with
  | unauthorized hnone =>
    rw [hnone] at happ
    cases happ
  | emptyTag hsome hempty =>
    obtain rfl := Option.some.inj (hsome.symm.trans happ)
    exact ⟨rfl, fun _ => rfl, absurd hempty, absurd hempty, absurd hempty, absurd hempty⟩
  | duplicate hsome hne hactive =>
    obtain rfl := Option.some.inj (hsome.symm.trans happ)
    exact ⟨rfl, fun h => absurd h hne, fun _ => iff_of_true rfl hactive,
      fun _ h => absurd hactive h, fun _ h => absurd hactive h, fun _ h => absurd hactive h⟩
  | invalidTag hsome hne hactive hinvalid =>
    obtain rfl := Option.some.inj (hsome.symm.trans happ)
    have hnot : validateTag tag ≠ .ok () := by simp [hinvalid]
    exact ⟨rfl, fun h => absurd h hne, fun _ => iff_of_false (by simp) hactive,
      fun _ _ => iff_of_true rfl ⟨_, hinvalid⟩, fun _ _ h => absurd h hnot,
      fun _ _ h => absurd h hnot⟩
  | queueFull hsome hne hactive hvalid hfull =>
    obtain rfl := Option.some.inj (hsome.symm.trans happ)
    exact ⟨rfl, fun h => absurd h hne, fun _ => iff_of_false (by simp) hactive,
      fun _ _ => iff_of_false (by simp) (by simp [hvalid]),
      fun _ _ _ => iff_of_true ⟨rfl, rfl⟩ hfull, fun _ _ _ h => absurd hfull (by omega)⟩
  | queued hsome hne hactive hvalid hroom =>
    obtain rfl := Option.some.inj (hsome.symm.trans happ)
    exact ⟨rfl, fun h => absurd h hne, fun _ => iff_of_false (by simp) hactive,
      fun _ _ => iff_of_false (by simp) (by simp [hvalid]),
      fun _ _ _ => iff_of_false (by simp) (by omega), fun _ _ _ _ => rfl⟩

/-- The decision gives the answers in their order. -/
theorem AdmitDecision.answers (h : AdmitDecision rt s token tag result) :
    AdmitAnswers rt s token tag result := by
  constructor
  · cases hfind : s.apps.bySecretHash (rt.hashSecret token) with
    | none =>
      have hnone := bySecretHash_none.mp hfind
      have hout : result.outcome = .unauthorized := by
        cases h with
        | unauthorized _ => rfl
        | emptyTag hsome _ | duplicate hsome _ _ | invalidTag hsome _ _ _
        | queueFull hsome _ _ _ _ | queued hsome _ _ _ _ =>
          rw [hfind] at hsome
          cases hsome
      refine iff_of_true hout ?_
      rintro ⟨app, hm, hhash, henabled⟩
      rw [hnone app hm hhash] at henabled
      cases henabled
    | some app =>
      have hout : result.outcome ≠ .unauthorized := by
        cases h with
        | unauthorized hnone =>
          rw [hfind] at hnone
          cases hnone
        | _ => simp
      exact iff_of_false hout fun hnot => hnot ⟨app, bySecretHash_some.mp hfind⟩
  · intro app hm hhash henabled
    exact h.tagAnswers (bySecretHash_some.mpr ⟨hm, hhash, henabled⟩)

end Decision

section Program

variable {rt : Runtime} {s₀ : Server} {C : Server → Choice → Prop} {own : List ServerStep}
  {token tag : String}

/-- How `Admit` ends: it has decided, or reports an error that the outside gave, and only a
queued request leaves something in the tables. -/
structure AdmitEnds (rt : Runtime) (s₀ : Server) (C : Server → Choice → Prop) (token tag : String)
    (own : List ServerStep) (result : AdmissionResult) : Prop where
  decided : AdmitDecision rt s₀ token tag result ∨
    (Troubled C ∧ AdmitFault rt s₀ token tag result)
  kept : result.outcome ≠ .queued → (left s₀ own).tables = s₀.tables
  added : result.outcome = .queued →
    ∃ app row, result.app = some app ∧ Added s₀ (left s₀ own) app.id tag row

theorem admitEnds_kept {result : AdmissionResult} (h : TablesKept s₀ own)
    (hdecided : AdmitDecision rt s₀ token tag result ∨
      (Troubled C ∧ AdmitFault rt s₀ token tag result))
    (hout : result.outcome ≠ .queued) : AdmitEnds rt s₀ C token tag own result :=
  ⟨hdecided, fun _ => kept_left h, fun hq => absurd hq hout⟩

theorem under_admission (h : Reading s₀ false false own) :
    AdmitUnder s₀ C own (admissionAdmit rt.hashSecret rt.maxPending token tag)
      (AdmitEnds rt s₀ C token tag) := by
  unfold admissionAdmit resolveApp
  apply Prog.under_bind (under_getBySecretHash h)
  intro own₁ found ⟨h₁, hanswer⟩
  rw [enabledApps_find] at hanswer
  obtain rfl | ⟨htrouble, e, rfl⟩ := hanswer
  · cases hfind : s₀.apps.bySecretHash (rt.hashSecret token) with
    | none => exact admitEnds_kept h₁.kept (Or.inl (.unauthorized hfind)) (by simp)
    | some app =>
      dsimp only
      split
      next hempty => exact admitEnds_kept h₁.kept (Or.inl (.emptyTag hfind hempty)) (by simp)
      next hne =>
        apply Prog.under_bind (under_isDuplicate h₁)
        intro own₂ value ⟨h₂, hduplicate⟩
        obtain rfl | ⟨htrouble, e, rfl⟩ := hduplicate
        · cases hcontains : s₀.jobs.activeKeys.contains (app.id, tag) with
          | true =>
            have hactive := activeKeys_contains.mp hcontains
            exact admitEnds_kept h₂.kept (Or.inl (.duplicate hfind hne hactive)) (by simp)
          | false =>
            have hactive : ¬ s₀.jobs.HasActive app.id tag := by
              rw [← activeKeys_contains, hcontains]
              simp
            apply Prog.under_bind (under_enqueue h₂ hactive)
            intro own₃ ended hended
            match ended, hended with
            | .ok (), ⟨hvalid, hroom, row, hadded⟩ =>
              exact ⟨Or.inl (.queued hfind hne hactive hvalid hroom), by simp,
                fun _ => ⟨app, row, rfl, hadded⟩⟩
            | .error (.invalidTag reason), ⟨hinvalid, hkept⟩ =>
              exact ⟨Or.inl (.invalidTag hfind hne hactive hinvalid), fun _ => hkept, by simp⟩
            | .error .queueFull, ⟨hvalid, hfull, hkept⟩ =>
              exact ⟨Or.inl (.queueFull hfind hne hactive hvalid hfull), fun _ => hkept, by simp⟩
            | .error .duplicate, hnever => exact hnever.elim
            | .error (.originalNotFound _), hnever => exact hnever.elim
            | .error (.random cause), ⟨htrouble, hvalid, hkept⟩ =>
              exact ⟨Or.inr ⟨htrouble, .naming cause hfind hne hactive hvalid⟩, fun _ => hkept,
                by simp⟩
            | .error (.sql _ cause), ⟨htrouble, hvalid, hcontext, hkept⟩ =>
              obtain rfl | rfl := hcontext
              · exact ⟨Or.inr ⟨htrouble, .duplicates cause hfind hne⟩, fun _ => hkept, by simp⟩
              · exact ⟨Or.inr ⟨htrouble, .enqueueing cause hfind hne hactive hvalid⟩,
                  fun _ => hkept, by simp⟩
        · exact admitEnds_kept h₂.kept (Or.inr ⟨htrouble, .duplicates e hfind hne⟩) (by simp)
  · exact admitEnds_kept h₁.kept (Or.inr ⟨htrouble, .resolving e⟩) (by simp)

end Program

/-- Whoever has written a table has returned. -/
def WritersReturned (history : ServerHistory) : Prop :=
  ∀ u call step, .acted u call step ∈ history → step.after.tables ≠ step.before.tables →
    ∃ value, .returned u call value ∈ history

/-- What may come of a configuration in which `Admit` is called, while the other calls, of any
kind and in any number, write to no table. The actions of `Admit` take from outside what `C`
allows. -/
def Runtime.Admits (rt : Runtime) (C : Server → Choice → Prop) (token tag : String)
    (cfg mid : ServerConfig) : Prop :=
  Stretch rt.program cfg.threads.length C (fun step => step.after.tables = step.before.tables)
    (cfg.begin rt.program (.admissionAdmit token tag)) mid

/-- The call has answered with this result. -/
def Admitted (token tag : String) (cfg mid : ServerConfig) (result : AdmissionResult) : Prop :=
  .returned cfg.threads.length (.admissionAdmit token tag) (.admitted result) ∈ mid.history

/-- What holds of `Admit` when it is called in this configuration. -/
structure AdmitDecides (rt : Runtime) (token tag : String) (cfg : ServerConfig) : Prop where
  answers : ∀ mid result, rt.Admits Untroubled token tag cfg mid →
    Admitted token tag cfg mid result → AdmitAnswers rt cfg.shared token tag result
  /-- Also where the database or the random source fails. -/
  kept : ∀ mid result, rt.Admits (fun _ _ => True) token tag cfg mid →
    Admitted token tag cfg mid result → result.outcome ≠ .queued →
    mid.shared.tables = cfg.shared.tables
  added : ∀ mid result, rt.Admits (fun _ _ => True) token tag cfg mid →
    Admitted token tag cfg mid result → result.outcome = .queued →
    ∃ app row, result.app = some app ∧ Added cfg.shared mid.shared app.id tag row
  /-- With no rebuild of a cache under way the answer comes. -/
  answered : cfg.shared.activeCacheMu = false → cfg.shared.secretHashCacheMu = false →
    ∃ mid result, rt.Admits Untroubled token tag cfg mid ∧ Admitted token tag cfg mid result

section Runs

variable {rt : Runtime} {s₀ : Server} {cfg mid : ServerConfig} {C : Server → Choice → Prop}
  {token tag : String}

theorem begin_ownSteps (reach : rt.Reaches s₀ cfg) :
    ownSteps cfg.threads.length
      (cfg.begin rt.program (.admissionAdmit token tag)).history = [] := by
  rw [Config.begin, ownSteps_called]
  apply ownSteps_other
  intro record hm
  exact Nat.ne_of_lt (thread_lt reach hm)

theorem begin_reaches (reach : rt.Reaches s₀ cfg) :
    rt.Reaches s₀ (cfg.begin rt.program (.admissionAdmit token tag)) :=
  reach.next (.call cfg _)

/-- A step that changes a table in such a run belongs to `Admit`, or to a call that has
returned. -/
theorem admits_quiet (quiet : WritersReturned cfg.history)
    (h : rt.Admits C token tag cfg mid)
    (hkept : TablesKept cfg.shared (ownSteps cfg.threads.length mid.history)) :
    WritersReturned mid.history := by
  intro u call step hm hchanges
  obtain hold | hown | hother := h.acted hm
  · have hcfg : .acted u call step ∈ cfg.history := by simpa [Config.begin] using hold
    obtain ⟨value, hreturned⟩ := quiet u call step hcfg hchanges
    exact ⟨value, h.history.subset (by simpa [Config.begin] using hreturned)⟩
  · obtain ⟨hbefore, hafter⟩ := hkept step hown
    exact absurd (hafter.trans hbefore.symm) hchanges
  · exact absurd hother hchanges

theorem admits_still (hactive : s₀.activeCache = none) (hsecrets : s₀.secretHashCache = none)
    (reach : rt.Reaches s₀ cfg) (quiet : WritersReturned cfg.history)
    (h : rt.Admits C token tag cfg mid) :
    TablesStill cfg.shared (ownSteps cfg.threads.length mid.history) mid.shared := by
  have hreach := h.reaches (begin_reaches reach)
  have htables := Stretch.left (fun _ ho => ho) (begin_ownSteps reach) h
  refine ⟨htables, ?_, ?_, ?_, ?_⟩
  · exact (SnapshotCache.reaches_coherent (follows_active rt) hactive hreach).held _
  · exact (SnapshotCache.reaches_coherent (follows_secrets rt) hsecrets hreach).held _
  · intro hkept m hm
    have hquiet := admits_quiet quiet h hkept
    have hjobs : mid.shared.jobs = cfg.shared.jobs :=
      congrArg Prod.fst (htables.trans (kept_left hkept))
    rw [← hjobs]
    refine SnapshotCache.published_quiet (follows_active rt) hactive hreach ?_ hm
    exact fun u call step hacted hchanges => hquiet u call step hacted fun he =>
      hchanges (congrArg Prod.fst he)
  · intro hkept m hm
    have hquiet := admits_quiet quiet h hkept
    have happs : mid.shared.apps = cfg.shared.apps :=
      congrArg (fun x => x.2.1) (htables.trans (kept_left hkept))
    rw [← happs]
    refine SnapshotCache.published_quiet (follows_secrets rt) hsecrets hreach ?_ hm
    exact fun u call step hacted hchanges => hquiet u call step hacted fun he =>
      hchanges (congrArg (fun x => x.2.1) he)

/-- The reply of a call of `Admit`. -/
def ReplyEnds (rt : Runtime) (s₀ : Server) (C : Server → Choice → Prop) (token tag : String)
    (own : List ServerStep) (reply : Reply) : Prop :=
  ∃ result, reply = .admitted result ∧ AdmitEnds rt s₀ C token tag own result

theorem under_program : (rt.program (.admissionAdmit token tag)).Under (TablesStill s₀) MayGo C
    (fun _ _ => True) (ReplyEnds rt s₀ C token tag) [] := by
  have hreading : Reading s₀ false false [] := by
    refine ⟨?_, ?_, ?_⟩
    · intro step hm
      cases hm
    · simp [SnapshotCache.Holds]
    · simp [SnapshotCache.Holds]
  apply Prog.under_map
  refine (under_admission hreading).mono ?_
  exact fun own result hends => ⟨result, rfl, hends⟩

theorem begin_underway (reach : rt.Reaches s₀ cfg) :
    Underway (TablesStill cfg.shared) MayGo C (fun _ _ => True)
      (ReplyEnds rt cfg.shared C token tag) cfg.threads.length
      (cfg.begin rt.program (.admissionAdmit token tag)) := by
  constructor
  · intro call rest ht
    rw [begin_ownSteps reach]
    simp only [Config.begin, List.getElem?_concat_length] at ht
    cases ht
    exact under_program
  · intro call value hm
    have hold : .returned cfg.threads.length call value ∈ cfg.history := by
      simpa [Config.begin] using hm
    exact absurd rfl (Nat.ne_of_lt (thread_lt reach hold))

theorem admits_ends (hactive : s₀.activeCache = none) (hsecrets : s₀.secretHashCache = none)
    (reach : rt.Reaches s₀ cfg) (quiet : WritersReturned cfg.history)
    (h : rt.Admits C token tag cfg mid) {call : Call} {reply : Reply}
    (hreturned : .returned cfg.threads.length call reply ∈ mid.history) :
    ReplyEnds rt cfg.shared C token tag (ownSteps cfg.threads.length mid.history) reply := by
  have hunderway := h.underway (begin_reaches reach)
    (fun mid hmid => admits_still hactive hsecrets reach quiet hmid)
    (by simp [Config.begin]) (begin_underway reach)
  exact hunderway.1.returned call reply hreturned

theorem untroubled_allowed (s : Server) : ∃ k, Untroubled s k := by
  obtain ⟨id, hid⟩ := Infinite.exists_notMem_finset (s.jobs.rows.map JobRow.id).toFinset
  refine ⟨⟨none, id⟩, rfl, ?_⟩
  rintro row hm rfl
  exact hid (by simpa using ⟨row, hm, rfl⟩)

/-- With both mutexes free there is a way for the call to return, whatever the outside gives. -/
theorem admits_returns (hallowed : ∀ s, ∃ k, C s k) (hactive : s₀.activeCache = none)
    (hsecrets : s₀.secretHashCache = none)
    (reach : rt.Reaches s₀ cfg) (quiet : WritersReturned cfg.history)
    (hopen : cfg.shared.activeCacheMu = false) (hopen' : cfg.shared.secretHashCacheMu = false) :
    ∃ mid reply, rt.Admits C token tag cfg mid ∧
      .returned cfg.threads.length (.admissionAdmit token tag) reply ∈ mid.history := by
  have hown : ownSteps cfg.threads.length
      (cfg.begin rt.program (.admissionAdmit token tag)).history = [] := begin_ownSteps reach
  have hfree : MayGo [] cfg.shared := by
    refine ⟨fun hlocked => ?_, fun hlocked => ?_⟩
    · exact absurd (hopen.symm.trans hlocked) (by simp)
    · exact absurd (hopen'.symm.trans hlocked) (by simp)
  refine Stretch.returns (R := fun _ _ => True) (Q := ReplyEnds rt cfg.shared C token tag)
    (fun mid hmid => admits_still hactive hsecrets reach quiet hmid) hallowed ?_
    (List.getElem?_concat_length ..) (hown ▸ under_program) (hown ▸ hfree) .start
  exact fun own step hfree => ⟨SnapshotCache.free_step hfree.1, SnapshotCache.free_step hfree.2⟩

end Runs

/-- Over every interleaving with calls that do not write, and from whatever a run of the server
has left in its tables and caches, `Admit` gives the answers of the tables in their order. -/
theorem admit_decides {rt : Runtime} {s₀ : Server} {cfg : ServerConfig}
    (hactive : s₀.activeCache = none) (hsecrets : s₀.secretHashCache = none)
    (reach : rt.Reaches s₀ cfg) (quiet : WritersReturned cfg.history) (token tag : String) :
    AdmitDecides rt token tag cfg where
  answers mid result h hadmitted := by
    obtain ⟨_, ⟨⟩, hends⟩ := admits_ends hactive hsecrets reach quiet h hadmitted
    obtain hdecision | ⟨⟨s, k, hk, htrouble⟩, -⟩ := hends.decided
    · exact hdecision.answers
    · exact absurd hk htrouble
  kept mid result h hadmitted hout := by
    obtain ⟨_, ⟨⟩, hends⟩ := admits_ends hactive hsecrets reach quiet h hadmitted
    exact (admits_still hactive hsecrets reach quiet h).tables.trans (hends.kept hout)
  added mid result h hadmitted hout := by
    obtain ⟨_, ⟨⟩, hends⟩ := admits_ends hactive hsecrets reach quiet h hadmitted
    obtain ⟨app, row, happ, hadded⟩ := hends.added hout
    exact ⟨app, row, happ,
      hadded.of_tables (admits_still hactive hsecrets reach quiet h).tables⟩
  answered hopen hopen' := by
    obtain ⟨mid, reply, h, hreturned⟩ :=
      admits_returns untroubled_allowed hactive hsecrets reach quiet hopen hopen'
    obtain ⟨result, rfl, -⟩ := admits_ends hactive hsecrets reach quiet h hreturned
    exact ⟨mid, result, h, hreturned⟩

/-- A database with one app, and a webhook of it that waits. -/
def oneWaiting : Server :=
  .started
    ⟨[⟨"j1", 1, "blog", "v1", .pending, .webhook, none, none, 0, 0, 0, ""⟩], by decide, by decide⟩
    ⟨[⟨"blog", "Blog", "token", "/opt/blog", "blog", "acme/blog", "blog", true⟩], by decide,
      by decide, by decide, by decide⟩

/-- Both caches are read once. -/
def warmed : ServerConfig :=
  play (Runtime.program ⟨2, id, id⟩) oneWaiting
    (solo (.getBySecretHash "token") 0 8 ⟨none, ""⟩ ++
      solo (.isDuplicate "blog" "v2") 1 8 ⟨none, ""⟩)

theorem admit_decides_warmed :
    (warmed.shared.activeCache.isSome = true ∧ warmed.shared.secretHashCache.isSome = true) ∧
      ∃ mid result, Runtime.Admits ⟨2, id, id⟩ Untroubled "token" "v1" warmed mid ∧
        Admitted "token" "v1" warmed mid result ∧ result.outcome = .duplicate := by
  have hreads : ∀ step ∈ steps warmed.history, step.after.tables = step.before.tables := by
    decide +kernel
  have quiet : WritersReturned warmed.history := fun u call step hm hchanges =>
    absurd (hreads step (mem_steps.mpr ⟨u, call, hm⟩)) hchanges
  have hdecides : AdmitDecides ⟨2, id, id⟩ "token" "v1" warmed :=
    admit_decides rfl rfl (reaches_play _ _ _) quiet "token" "v1"
  obtain ⟨mid, result, h, hadmitted⟩ := hdecides.answered (by decide +kernel) (by decide +kernel)
  refine ⟨by decide +kernel, mid, result, h, hadmitted, ?_⟩
  have htables : warmed.shared.tables = oneWaiting.tables := by decide +kernel
  have happs : warmed.shared.apps = oneWaiting.apps := congrArg (fun x => x.2.1) htables
  have hjobs : warmed.shared.jobs = oneWaiting.jobs := congrArg Prod.fst htables
  have hanswers := (hdecides.answers mid result h hadmitted).authorized
    ⟨"blog", "Blog", "token", "/opt/blog", "blog", "acme/blog", "blog", true⟩
    (by rw [happs]; exact List.mem_singleton_self _) rfl rfl
  refine (hanswers.duplicate (by decide)).mpr ?_
  rw [hjobs]
  exact ⟨_, List.mem_singleton_self _, rfl, rfl, rfl⟩

end AutoDeploy
