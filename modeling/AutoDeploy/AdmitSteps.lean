import AutoDeploy.CacheCoherence
import AutoDeploy.InterleavingStretch

namespace AutoDeploy

open Interleaving

/-- The tables of the database. -/
def Server.tables (s : Server) : Jobs × Apps × Settings (List EnvVar) × Settings (List String) :=
  (s.jobs, s.apps, s.appEnv, s.appArgs)

/-- The database and the random source work: no error, and a name that no row has. -/
def Untroubled (s : Server) (k : Choice) : Prop :=
  k.fault = none ∧ ∀ row ∈ s.jobs.rows, row.id ≠ k.id

/-- Something that is allowed from outside is an error or a taken name. -/
def Troubled (C : Server → Choice → Prop) : Prop := ∃ s k, C s k ∧ ¬ Untroubled s k

/-- One waiting row more, and nothing else. -/
structure Added (before after : Server) (appID tag : String) (row : JobRow) : Prop where
  rows : after.jobs.rows = before.jobs.rows ++ [row]
  pending : row.status = .pending
  webhook : row.trigger = .webhook
  app : row.appID = appID
  tag : row.tag = tag
  above : ∀ other ∈ before.jobs.rows, other.seq < row.seq
  apps : after.apps = before.apps
  appEnv : after.appEnv = before.appEnv
  appArgs : after.appArgs = before.appArgs

theorem Added.of_tables {before after after' : Server} {appID tag : String} {row : JobRow}
    (h : Added before after appID tag row) (ht : after'.tables = after.tables) :
    Added before after' appID tag row := by
  simp only [Server.tables, Prod.mk.injEq] at ht
  obtain ⟨hjobs, happs, henv, hargs⟩ := ht
  exact { h with
    rows := by rw [hjobs, h.rows]
    apps := by rw [happs, h.apps]
    appEnv := by rw [henv, h.appEnv]
    appArgs := by rw [hargs, h.appArgs] }

/-- The steps have found the tables as they were at first, and have left them so. -/
def TablesKept (s₀ : Server) (own : List ServerStep) : Prop :=
  ∀ step ∈ own, step.before.tables = s₀.tables ∧ step.after.tables = s₀.tables

theorem kept_left {s₀ : Server} {own : List ServerStep} (h : TablesKept s₀ own) :
    (left s₀ own).tables = s₀.tables := by
  rcases List.eq_nil_or_concat own with rfl | ⟨front, last, rfl⟩
  · rfl
  · rw [List.concat_eq_append, left_snoc]
    exact (h last (by simp)).2

/-- What a call finds while the others keep the tables. -/
structure TablesStill (s₀ : Server) (own : List ServerStep) (s : Server) : Prop where
  tables : s.tables = (left s₀ own).tables
  activeLocked : activeJobs.Holds own → s.activeCacheMu = true
  secretsLocked : secretHashes.Holds own → s.secretHashCacheMu = true
  active : TablesKept s₀ own → ∀ m, s.activeCache = some m → m = s₀.jobs.activeKeys
  secrets : TablesKept s₀ own → ∀ m, s.secretHashCache = some m → m = s₀.apps.enabledApps

/-- No other thread is in a critical section. -/
def MayGo (own : List ServerStep) (s : Server) : Prop :=
  activeJobs.Free own s ∧ secretHashes.Free own s

abbrev AdmitUnder {α : Type} (s₀ : Server) (C : Server → Choice → Prop) (own : List ServerStep)
    (p : Op α) (Q : List ServerStep → α → Prop) : Prop :=
  p.Under (TablesStill s₀) MayGo C (fun _ _ => True) Q own

/-- The steps so far only read the tables, and hold these mutexes. -/
structure Reading (s₀ : Server) (active secrets : Bool) (own : List ServerStep) : Prop where
  kept : TablesKept s₀ own
  active : activeJobs.Holds own ↔ active = true
  secrets : secretHashes.Holds own ↔ secrets = true

/-- The right answer, or one of these errors where the outside may give one. -/
def Answers {ι α η : Type} (C : Server → Choice → Prop) (wrap : ι → η) (value : Except η α)
    (right : α) : Prop :=
  value = .ok right ∨ (Troubled C ∧ ∃ cause, value = .error (wrap cause))

section Primitives

variable {s₀ : Server} {C : Server → Choice → Prop} {own : List ServerStep} {a b : Bool}
  {α η : Type}

theorem admit_atomic {run : Server → Choice → α × Server × List StoreEvent}
    {Q : List ServerStep → α → Prop}
    (h : ∀ s k, TablesStill s₀ own s → C s k →
      Q (own ++ [⟨s, (run s k).2.2, (run s k).2.1⟩]) (run s k).1) :
    AdmitUnder s₀ C own (Prog.atomic run) Q :=
  Prog.under_atomic fun s k hs hk => ⟨trivial, h s k hs hk⟩

theorem admit_await {ready : Server → Bool} {run : Server → Choice → α × Server × List StoreEvent}
    {Q : List ServerStep → α → Prop}
    (hfree : ∀ s, TablesStill s₀ own s → MayGo own s → ready s = true)
    (h : ∀ s k, TablesStill s₀ own s → C s k → ready s = true →
      Q (own ++ [⟨s, (run s k).2.2, (run s k).2.1⟩]) (run s k).1) :
    AdmitUnder s₀ C own (Prog.await ready run) Q :=
  Prog.under_await hfree fun s k hs hk hready => ⟨trivial, h s k hs hk hready⟩

theorem Reading.tables {s : Server} (h : Reading s₀ a b own) (hI : TablesStill s₀ own s) :
    s.tables = s₀.tables :=
  hI.tables.trans (kept_left h.kept)

theorem Reading.jobs {s : Server} (h : Reading s₀ a b own) (hI : TablesStill s₀ own s) :
    s.jobs = s₀.jobs :=
  congrArg Prod.fst (h.tables hI)

/-- One step more that leaves the tables as they are. -/
theorem Reading.kept_step {step : ServerStep} (h : Reading s₀ a b own)
    (hI : TablesStill s₀ own step.before) (ht : step.after.tables = step.before.tables) :
    TablesKept s₀ (own ++ [step]) := by
  intro other hm
  rcases List.mem_append.mp hm with hm | hlast
  · exact h.kept other hm
  · rw [List.mem_singleton.mp hlast]
    exact ⟨h.tables hI, ht.trans (h.tables hI)⟩

/-- One step more that leaves the tables and the mutexes as they are. -/
theorem Reading.step {step : ServerStep} (h : Reading s₀ a b own)
    (hI : TablesStill s₀ own step.before) (ht : step.after.tables = step.before.tables)
    (hactive : step.after.activeCacheMu = step.before.activeCacheMu)
    (hsecrets : step.after.secretHashCacheMu = step.before.secretHashCacheMu) :
    Reading s₀ a b (own ++ [step]) where
  kept := h.kept_step hI ht
  active := (SnapshotCache.holds_same (v := activeJobs) hactive).trans h.active
  secrets := (SnapshotCache.holds_same (v := secretHashes) hsecrets).trans h.secrets

theorem troubled_fault {s : Server} {k : Choice} {text : String} (hk : C s k)
    (hf : k.fault = some text) : Troubled C :=
  ⟨s, k, hk, fun hu => by simp [hu.1] at hf⟩

theorem under_query {select : Server → α} (h : Reading s₀ a b own)
    (hselect : ∀ s, s.tables = s₀.tables → select s = select s₀) :
    AdmitUnder s₀ C own (query select) fun own' value =>
      Reading s₀ a b own' ∧ Answers C id value (select s₀) := by
  apply admit_atomic
  intro s k hI hk
  cases hf : k.fault with
  | none => exact ⟨h.step hI rfl rfl rfl, Or.inl (by rw [hselect s (h.tables hI)])⟩
  | some text =>
    exact ⟨h.step hI rfl rfl rfl, Or.inr ⟨troubled_fault hk hf, _, rfl⟩⟩

/-- The generated name, which is free unless there is trouble. -/
theorem under_generateJobID (h : Reading s₀ a b own) :
    AdmitUnder s₀ C own generateJobID fun own' value => Reading s₀ a b own' ∧
      ((∃ id, value = .ok id ∧ ((∀ row ∈ s₀.jobs.rows, row.id ≠ id) ∨ Troubled C)) ∨
        (Troubled C ∧ ∃ e, value = .error e)) := by
  apply admit_atomic
  intro s k hI hk
  cases hf : k.fault with
  | none =>
    refine ⟨h.step hI rfl rfl rfl, Or.inl ⟨k.id, rfl, ?_⟩⟩
    by_cases hu : Untroubled s k
    · rw [← h.jobs hI]
      exact Or.inl hu.2
    · exact Or.inr ⟨s, k, hk, hu⟩
  | some text =>
    exact ⟨h.step hI rfl rfl rfl, Or.inr ⟨troubled_fault hk hf, _, rfl⟩⟩

/-- After the reading the cache of the jobs is dropped, and the tables stay as they are. -/
theorem under_invalidateActive (h : ¬ activeJobs.Holds own) :
    AdmitUnder s₀ C own invalidateActiveJobsCache fun own' _ =>
      (left s₀ own').tables = (left s₀ own).tables := by
  apply admit_await
  · intro s _ hfree
    have hopen : ¬ s.activeCacheMu = true := fun hlocked => h (hfree.1 hlocked)
    simpa using hopen
  · intro s k hI _ _
    rw [left_snoc, ← hI.tables]
    rfl

end Primitives

section Caches

variable {s₀ : Server} {C : Server → Choice → Prop} {own : List ServerStep} {μ η : Type}

/-- What the primitives of a cache do in a call that is not disturbed, outside of the critical
section and in it. -/
structure Loads (s₀ : Server) (C : Server → Choice → Prop) (Out In : List ServerStep → Prop)
    (m : μ) (read : Op (Option μ)) (lock unlock : Op Unit) (select : Op (Except SqlError μ))
    (store : μ → Op Unit) : Prop where
  peek : ∀ own, Out own → AdmitUnder s₀ C own read fun own' found =>
    Out own' ∧ ∀ m', found = some m' → m' = m
  lock : ∀ own, Out own → AdmitUnder s₀ C own lock fun own' _ => In own'
  read : ∀ own, In own → AdmitUnder s₀ C own read fun own' found =>
    In own' ∧ ∀ m', found = some m' → m' = m
  select : ∀ own, In own → AdmitUnder s₀ C own select fun own' value =>
    In own' ∧ Answers C id value m
  store : ∀ own m', In own → AdmitUnder s₀ C own (store m') fun own' _ => In own'
  unlock : ∀ own, In own → AdmitUnder s₀ C own unlock fun own' _ => Out own'

theorem under_loadThrough {Out In : List ServerStep → Prop} {m : μ} {read : Op (Option μ)}
    {lock unlock : Op Unit} {select : Op (Except SqlError μ)} {store : μ → Op Unit}
    {wrap : SqlError → η} (loads : Loads s₀ C Out In m read lock unlock select store)
    (h : Out own) :
    AdmitUnder s₀ C own (loadThrough read lock unlock select store wrap) fun own' value =>
      Out own' ∧ Answers C wrap value m := by
  unfold loadThrough
  apply Prog.under_bind (loads.peek own h)
  intro own₁ found ⟨h₁, hfound⟩
  cases found with
  | some m' => exact ⟨h₁, Or.inl (by rw [hfound m' rfl])⟩
  | none =>
    apply Prog.under_bind (loads.lock own₁ h₁)
    intro own₂ _ h₂
    apply Prog.under_bind (loads.read own₂ h₂)
    intro own₃ found ⟨h₃, hfound⟩
    cases found with
    | some m' =>
      apply Prog.under_bind (loads.unlock own₃ h₃)
      exact fun own₄ _ h₄ => ⟨h₄, Or.inl (by rw [hfound m' rfl])⟩
    | none =>
      apply Prog.under_bind (loads.select own₃ h₃)
      intro own₄ value ⟨h₄, hanswer⟩
      cases value with
      | error e =>
        apply Prog.under_bind (loads.unlock own₄ h₄)
        intro own₅ _ h₅
        obtain hok | ⟨htrouble, -⟩ := hanswer
        · cases hok
        · exact ⟨h₅, Or.inr ⟨htrouble, e, rfl⟩⟩
      | ok m' =>
        apply Prog.under_bind (loads.store own₄ m' h₄)
        intro own₅ _ h₅
        apply Prog.under_bind (loads.unlock own₅ h₅)
        intro own₆ _ h₆
        obtain hok | ⟨-, e, herror⟩ := hanswer
        · exact ⟨h₆, Or.inl (by rw [Except.ok.inj hok])⟩
        · cases herror

theorem under_readActiveCache {a b : Bool} (h : Reading s₀ a b own) :
    AdmitUnder s₀ C own readActiveCache fun own' found =>
      Reading s₀ a b own' ∧ ∀ m, found = some m → m = s₀.jobs.activeKeys := by
  apply admit_atomic
  intro s k hI _
  exact ⟨h.step hI rfl rfl rfl, hI.active h.kept⟩

theorem under_readSecretHashCache {a b : Bool} (h : Reading s₀ a b own) :
    AdmitUnder s₀ C own readSecretHashCache fun own' found =>
      Reading s₀ a b own' ∧ ∀ m, found = some m → m = s₀.apps.enabledApps := by
  apply admit_atomic
  intro s k hI _
  exact ⟨h.step hI rfl rfl rfl, hI.secrets h.kept⟩

theorem loads_active : Loads s₀ C (Reading s₀ false false) (Reading s₀ true false)
    s₀.jobs.activeKeys readActiveCache lockActiveCache unlockActiveCache
    (query fun s => s.jobs.activeKeys) storeActiveCache where
  peek own h := under_readActiveCache h
  read own h := under_readActiveCache h
  lock own h := by
    apply admit_await
    · intro s _ hfree
      have hopen : ¬ s.activeCacheMu = true := fun hlocked => by
        simpa using h.active.mp (hfree.1 hlocked)
      simpa using hopen
    · intro s k hI _ hready
      have hopen : s.activeCacheMu = false := by simpa using hready
      refine ⟨h.kept_step hI rfl, ?_, ?_⟩
      · exact iff_of_true (SnapshotCache.holds_locks ⟨hopen, rfl⟩) rfl
      · exact (SnapshotCache.holds_same (v := secretHashes) rfl).trans h.secrets
  select own h := under_query h fun s hs => by
    rw [show s.jobs = s₀.jobs from congrArg Prod.fst hs]
  store own m' h := admit_atomic fun s k hI _ => h.step hI rfl rfl rfl
  unlock own h := by
    apply admit_atomic
    intro s k hI _
    refine ⟨h.kept_step hI rfl, ?_, ?_⟩
    · have hlocked := hI.activeLocked (h.active.mpr rfl)
      exact iff_of_false (SnapshotCache.not_holds_unlocks ⟨hlocked, rfl⟩) (by simp)
    · exact (SnapshotCache.holds_same (v := secretHashes) rfl).trans h.secrets

theorem loads_secrets : Loads s₀ C (Reading s₀ false false) (Reading s₀ false true)
    s₀.apps.enabledApps readSecretHashCache lockSecretHashCache unlockSecretHashCache
    (query fun s => s.apps.enabledApps) storeSecretHashCache where
  peek own h := under_readSecretHashCache h
  read own h := under_readSecretHashCache h
  lock own h := by
    apply admit_await
    · intro s _ hfree
      have hopen : ¬ s.secretHashCacheMu = true := fun hlocked => by
        simpa using h.secrets.mp (hfree.2 hlocked)
      simpa using hopen
    · intro s k hI _ hready
      have hopen : s.secretHashCacheMu = false := by simpa using hready
      refine ⟨h.kept_step hI rfl, ?_, ?_⟩
      · exact (SnapshotCache.holds_same (v := activeJobs) rfl).trans h.active
      · exact iff_of_true (SnapshotCache.holds_locks ⟨hopen, rfl⟩) rfl
  select own h := under_query h fun s hs => by
    rw [show s.apps = s₀.apps from congrArg (fun x => x.2.1) hs]
  store own m' h := admit_atomic fun s k hI _ => h.step hI rfl rfl rfl
  unlock own h := by
    apply admit_atomic
    intro s k hI _
    refine ⟨h.kept_step hI rfl, ?_, ?_⟩
    · exact (SnapshotCache.holds_same (v := activeJobs) rfl).trans h.active
    · have hlocked := hI.secretsLocked (h.secrets.mpr rfl)
      exact iff_of_false (SnapshotCache.not_holds_unlocks ⟨hlocked, rfl⟩) (by simp)

theorem under_isDuplicate {appID tag : String} (h : Reading s₀ false false own) :
    AdmitUnder s₀ C own (isDuplicate appID tag) fun own' value =>
      Reading s₀ false false own' ∧
        Answers C (QueueError.sql "deploy_queue: load active cache: ") value
          (s₀.jobs.activeKeys.contains (appID, tag)) := by
  unfold isDuplicate
  rw [loadActiveCache_eq]
  apply Prog.under_bind (under_loadThrough loads_active h)
  intro own₁ value ⟨h₁, hanswer⟩
  obtain rfl | ⟨htrouble, e, rfl⟩ := hanswer
  · exact ⟨h₁, Or.inl rfl⟩
  · exact ⟨h₁, Or.inr ⟨htrouble, e, rfl⟩⟩

theorem under_getBySecretHash {hash : String} (h : Reading s₀ false false own) :
    AdmitUnder s₀ C own (getBySecretHash hash) fun own' value =>
      Reading s₀ false false own' ∧
        Answers C (AppError.sql "app_store: load secret hash cache: ") value
          (s₀.apps.enabledApps.find? fun app => app.webhookSecretHash == hash) := by
  unfold getBySecretHash
  rw [loadSecretHashCache_eq]
  apply Prog.under_bind (under_loadThrough loads_secrets h)
  intro own₁ value ⟨h₁, hanswer⟩
  obtain rfl | ⟨htrouble, e, rfl⟩ := hanswer
  · exact ⟨h₁, Or.inl rfl⟩
  · exact ⟨h₁, Or.inr ⟨htrouble, e, rfl⟩⟩

end Caches

section Enqueue

variable {s₀ : Server} {C : Server → Choice → Prop} {own : List ServerStep}

/-- Where the active key is free an INSERT fails only on a taken id. -/
theorem insert_error {jobs : Jobs} {row : JobRow} {e : SqlError}
    (hkey : ∀ other ∈ jobs.rows, other.isActive = true → other.activeKey ≠ row.activeKey)
    (h : jobs.insert row = .error e) :
    e = .primaryKey ∧ ¬ ∀ other ∈ jobs.rows, other.id ≠ row.id := by
  have hid : ¬ ∀ other ∈ jobs.rows, other.id ≠ row.id := by
    intro hid
    obtain ⟨after, hok⟩ := jobs.insert_ok hid hkey
    rw [hok] at h
    cases h
  refine ⟨?_, hid⟩
  unfold Jobs.insert Jobs.check at h
  split at h
  next hpk =>
    refine absurd ?_ hid
    intro other hm he
    rw [List.map_append, List.nodup_append] at hpk
    exact hpk.2.2 other.id (List.mem_map_of_mem hm) row.id (by simp) he
  next =>
    cases h
    rfl

/-- The INSERT of a webhook for a key that is not active. -/
theorem under_insertJob {jobID appID tag : String} (h : Reading s₀ false false own)
    (hactive : ¬ s₀.jobs.HasActive appID tag) :
    AdmitUnder s₀ C own (insertJob jobID appID tag .webhook none) fun own' value =>
      ¬ activeJobs.Holds own' ∧
        ((value = .ok () ∧ ∃ row, Added s₀ (left s₀ own') appID tag row) ∨
          ((∃ e, value = .error e ∧ isUniqueViolation e = false) ∧
            (left s₀ own').tables = s₀.tables ∧
            ((∀ row ∈ s₀.jobs.rows, row.id ≠ jobID) → Troubled C))) := by
  apply admit_atomic
  intro s k hI hk
  have hjobs := h.jobs hI
  have hout : ¬ activeJobs.Holds own := fun hholds => by simpa using h.active.mp hholds
  cases hf : k.fault with
  | some text =>
    refine ⟨(SnapshotCache.holds_same (v := activeJobs) rfl).not.mpr hout, Or.inr ?_⟩
    refine ⟨⟨_, rfl, rfl⟩, by rw [left_snoc]; exact h.tables hI, ?_⟩
    exact fun _ => troubled_fault hk hf
  | none =>
    have hkey : ∀ other ∈ s.jobs.rows, other.isActive = true →
        other.activeKey ≠ (s.jobs.newJob jobID appID tag .webhook none).activeKey := by
      intro other hm ha he
      obtain ⟨happ, htag⟩ := Prod.mk.inj he
      exact hactive ⟨other, hjobs ▸ hm, ha, happ, htag⟩
    cases hi : s.jobs.insert (s.jobs.newJob jobID appID tag .webhook none) with
    | error e =>
      obtain ⟨rfl, hid⟩ := insert_error hkey hi
      simp only [hi]
      refine ⟨(SnapshotCache.holds_same (v := activeJobs) rfl).not.mpr hout, Or.inr ?_⟩
      refine ⟨⟨_, rfl, rfl⟩, by rw [left_snoc]; exact h.tables hI, ?_⟩
      exact fun hfresh => absurd (hjobs ▸ hfresh) hid
    | ok jobs =>
      simp only [hi]
      refine ⟨(SnapshotCache.holds_same (v := activeJobs) rfl).not.mpr hout, Or.inl ⟨rfl, ?_⟩⟩
      have ht := h.tables hI
      simp only [Server.tables, Prod.mk.injEq] at ht
      rw [left_snoc]
      refine ⟨s.jobs.newJob jobID appID tag .webhook none, ?_, rfl, rfl, rfl, rfl, ?_, ht.2.1,
        ht.2.2.1, ht.2.2.2⟩
      · rw [← hjobs]
        exact Jobs.insert_rows hi
      · rw [← hjobs]
        exact fun other hm => s.jobs.seq_lt_nextSeq hm

/-- How `Enqueue` ends for a key that is not active. -/
def EnqueueEnds (maxPending : Int) (s₀ : Server) (C : Server → Choice → Prop)
    (appID tag : String) (own : List ServerStep) : Except QueueError Unit → Prop
  | .ok () => validateTag tag = .ok () ∧ (s₀.jobs.pendingCount appID : Int) < maxPending ∧
      ∃ row, Added s₀ (left s₀ own) appID tag row
  | .error (.invalidTag reason) =>
    validateTag tag = .error reason ∧ (left s₀ own).tables = s₀.tables
  | .error .queueFull => validateTag tag = .ok () ∧
      maxPending ≤ (s₀.jobs.pendingCount appID : Int) ∧ (left s₀ own).tables = s₀.tables
  | .error .duplicate | .error (.originalNotFound _) => False
  | .error (.random _) =>
    Troubled C ∧ validateTag tag = .ok () ∧ (left s₀ own).tables = s₀.tables
  | .error (.sql context _) => Troubled C ∧ validateTag tag = .ok () ∧
      (context = "deploy_queue: load active cache: " ∨ context = "") ∧
      (left s₀ own).tables = s₀.tables

theorem under_enqueue {maxPending : Int} {appID tag : String} (h : Reading s₀ false false own)
    (hactive : ¬ s₀.jobs.HasActive appID tag) :
    AdmitUnder s₀ C own (enqueue maxPending appID tag)
      (EnqueueEnds maxPending s₀ C appID tag) := by
  unfold enqueue enqueueAs
  cases hvalid : validateTag tag with
  | error reason => exact ⟨hvalid, kept_left h.kept⟩
  | ok _ =>
    apply Prog.under_bind (under_isDuplicate h)
    intro own₁ value ⟨h₁, hanswer⟩
    have hfalse : s₀.jobs.activeKeys.contains (appID, tag) = false :=
      Bool.eq_false_iff.mpr fun htrue => hactive (activeKeys_contains.mp htrue)
    rw [hfalse] at hanswer
    obtain rfl | ⟨htrouble, e, rfl⟩ := hanswer
    · have hcounts : ∀ s : Server, s.tables = s₀.tables →
          s.jobs.pendingCount appID = s₀.jobs.pendingCount appID := fun s hs => by
        rw [show s.jobs = s₀.jobs from congrArg Prod.fst hs]
      apply Prog.under_bind (under_query h₁ hcounts)
      intro own₂ counted ⟨h₂, hcount⟩
      obtain rfl | ⟨htrouble, e, rfl⟩ := hcount
      · dsimp only
        split
        next hfull => exact ⟨hvalid, hfull, kept_left h₂.kept⟩
        next hroom =>
          apply Prog.under_bind (under_generateJobID h₂)
          intro own₃ generated ⟨h₃, hid⟩
          obtain ⟨id, rfl, hfresh⟩ | ⟨htrouble, e, rfl⟩ := hid
          · apply Prog.under_bind (under_insertJob h₃ hactive)
            intro own₄ inserted ⟨hopen, hinserted⟩
            apply Prog.under_bind (under_invalidateActive hopen)
            intro own₅ _ ht
            obtain ⟨rfl, row, hadded⟩ | ⟨⟨e, rfl, hunique⟩, hkept, htaken⟩ := hinserted
            · exact ⟨hvalid, by omega, row, hadded.of_tables ht⟩
            · simp only [hunique, Bool.false_eq_true, ↓reduceIte]
              exact ⟨hfresh.elim htaken fun htrouble => htrouble, hvalid, Or.inr rfl,
                ht.trans hkept⟩
          · exact ⟨htrouble, hvalid, kept_left h₃.kept⟩
      · exact ⟨htrouble, hvalid, Or.inr rfl, kept_left h₂.kept⟩
    · exact ⟨htrouble, hvalid, Or.inl rfl, kept_left h₁.kept⟩

end Enqueue

end AutoDeploy
