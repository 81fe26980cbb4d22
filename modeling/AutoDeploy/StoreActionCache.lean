import AutoDeploy.StoreAction

namespace AutoDeploy

open Interleaving

section Load

variable {rt : Runtime} {call : Call} {own : List ServerStep} {τ μ η : Type}

/-- The program that both caches are read with. -/
def loadThrough (read : Op (Option μ)) (lock unlock : Op Unit)
    (select : Op (Except SqlError μ)) (store : μ → Op Unit) (wrap : SqlError → η) :
    Op (Except η μ) := do
  match ← read with
  | some m => return .ok m
  | none =>
    lock
    match ← read with
    | some m =>
      unlock
      return .ok m
    | none =>
      match ← select with
      | .error e =>
        unlock
        return .error (wrap e)
      | .ok m =>
        store m
        unlock
        return .ok m

theorem loadActiveCache_eq : loadActiveCache =
    loadThrough readActiveCache lockActiveCache unlockActiveCache
      (query fun s => s.jobs.activeKeys) storeActiveCache
      (.sql "deploy_queue: load active cache: ") := by
  refine bind_congr ?_
  rintro (_ | m)
  · refine bind_congr fun _ => bind_congr ?_
    rintro (_ | m)
    · refine bind_congr ?_
      rintro (e | m) <;> rfl
    · rfl
  · rfl

theorem loadSecretHashCache_eq : loadSecretHashCache =
    loadThrough readSecretHashCache lockSecretHashCache unlockSecretHashCache
      (query fun s => s.apps.enabledApps) storeSecretHashCache
      (.sql "app_store: load secret hash cache: ") := by
  refine bind_congr ?_
  rintro (_ | m)
  · refine bind_congr fun _ => bind_congr ?_
    rintro (_ | m)
    · refine bind_congr ?_
      rintro (e | m) <;> rfl
    · rfl
  · rfl

/-- What the primitives of a cache do to it. -/
structure Serves (rt : Runtime) (call : Call) (v : SnapshotCache Server τ μ)
    (read : Op (Option μ)) (lock unlock : Op Unit) (select : Op (Except SqlError μ))
    (store : μ → Op Unit) : Prop where
  read : ∀ own, StoreSafe rt call own read fun own' found => Settles own own' ∧
    (v.Holds own → v.Holds own') ∧ ∀ m, found = some m → v.Read own' m
  lock : ∀ own, StoreSafe rt call own lock fun own' _ => Settles own own' ∧ v.Holds own'
  select : ∀ own, StoreSafe rt call own select fun own' value => Settles own own' ∧
    (v.Holds own → v.Holds own') ∧ ∀ m, value = .ok m → v.Selected own' m ∧ v.Read own' m
  store : ∀ own m, v.Holds own → v.Selected own m →
    StoreSafe rt call own (store m) fun own' _ => Settles own own' ∧ v.Holds own'
  unlock : ∀ own, v.Holds own → StoreSafe rt call own unlock fun own' _ => Settles own own'

theorem store_loadThrough {v : SnapshotCache Server τ μ} {read : Op (Option μ)}
    {lock unlock : Op Unit} {select : Op (Except SqlError μ)} {store : μ → Op Unit}
    {wrap : SqlError → η} (serves : Serves rt call v read lock unlock select store) :
    StoreSafe rt call own (loadThrough read lock unlock select store wrap) fun own' value =>
      Settles own own' ∧ ∀ m, value = .ok m → v.Read own' m := by
  unfold loadThrough
  apply Prog.safe_bind (serves.read own)
  rintro own₁ (_ | m) ⟨hs₁, -, hread₁⟩
  · apply Prog.safe_bind (serves.lock own₁)
    rintro own₂ _ ⟨hs₂, hholds₂⟩
    apply Prog.safe_bind (serves.read own₂)
    rintro own₃ (_ | m) ⟨hs₃, hholds₃, hread₃⟩
    · have hs := (hs₁.trans hs₂).trans hs₃
      apply Prog.safe_bind (serves.select own₃)
      rintro own₄ (e | m) ⟨hs₄, hholds₄, hread₄⟩
      · apply Prog.safe_bind (serves.unlock own₄ (hholds₄ (hholds₃ hholds₂)))
        intro own₅ _ hs₅
        exact ⟨(hs.trans hs₄).trans hs₅, by simp⟩
      · obtain ⟨hselected, hread⟩ := hread₄ m rfl
        apply Prog.safe_bind (serves.store own₄ m (hholds₄ (hholds₃ hholds₂)) hselected)
        rintro own₅ _ ⟨hs₅, hholds₅⟩
        apply Prog.safe_bind (serves.unlock own₅ hholds₅)
        intro own₆ _ hs₆
        refine ⟨((hs.trans hs₄).trans hs₅).trans hs₆, ?_⟩
        rintro m' ⟨⟩
        exact hread.mono (hs₅.trans hs₆).steps.subset
    · apply Prog.safe_bind (serves.unlock own₃ (hholds₃ hholds₂))
      intro own₄ _ hs₄
      refine ⟨((hs₁.trans hs₂).trans hs₃).trans hs₄, ?_⟩
      rintro m' ⟨⟩
      exact (hread₃ m rfl).mono hs₄.steps.subset
  · refine ⟨hs₁, ?_⟩
    rintro m' ⟨⟩
    exact hread₁ m rfl

/-- A step that leaves the mutex as it is, over a cache that its state holds. -/
theorem read_cached {v : SnapshotCache Server τ μ} {s : Server} {m : μ} (h : v.cache s = some m) :
    v.Read (own ++ [⟨s, [], s⟩]) m :=
  ⟨⟨s, [], s⟩, List.mem_append_right _ (List.mem_singleton_self _), Or.inl h⟩

theorem read_selected (v : SnapshotCache Server τ μ) (s : Server) :
    v.Read (own ++ [⟨s, [], s⟩]) (v.select (v.table s)) :=
  ⟨⟨s, [], s⟩, List.mem_append_right _ (List.mem_singleton_self _), Or.inr rfl⟩

theorem serves_active : Serves rt call activeJobs readActiveCache lockActiveCache
    unlockActiveCache (query fun s => s.jobs.activeKeys) storeActiveCache where
  read own := Prog.safe_atomic fun s k _ =>
    ⟨.reads rfl, settles_step rfl rfl, SnapshotCache.holds_step rfl, fun _ h => read_cached h⟩
  lock own := by
    apply Prog.safe_await
    intro s k _ hfree
    have hfree : s.activeCacheMu = false := by simpa using hfree
    exact ⟨.locksActive hfree rfl, settles_step rfl rfl, SnapshotCache.holds_locks ⟨hfree, rfl⟩⟩
  select own := by
    apply store_query.mono
    rintro own' value ⟨s, rfl, hvalue⟩
    refine ⟨settles_step rfl rfl, SnapshotCache.holds_step rfl, ?_⟩
    intro m hm
    obtain rfl := hvalue m hm
    exact ⟨SnapshotCache.selected_read (v := activeJobs), read_selected activeJobs s⟩
  store own m hholds hselected := Prog.safe_atomic fun s k _ =>
    ⟨.storesActive hholds hselected rfl, settles_step rfl rfl,
      SnapshotCache.holds_step rfl hholds⟩
  unlock own hholds := Prog.safe_atomic fun s k _ =>
    ⟨.unlocksActive hholds rfl, settles_step rfl rfl⟩

theorem serves_secrets : Serves rt call secretHashes readSecretHashCache lockSecretHashCache
    unlockSecretHashCache (query fun s => s.apps.enabledApps) storeSecretHashCache where
  read own := Prog.safe_atomic fun s k _ =>
    ⟨.reads rfl, settles_step rfl rfl, SnapshotCache.holds_step rfl, fun _ h => read_cached h⟩
  lock own := by
    apply Prog.safe_await
    intro s k _ hfree
    have hfree : s.secretHashCacheMu = false := by simpa using hfree
    exact ⟨.locksSecrets hfree rfl, settles_step rfl rfl, SnapshotCache.holds_locks ⟨hfree, rfl⟩⟩
  select own := by
    apply store_query.mono
    rintro own' value ⟨s, rfl, hvalue⟩
    refine ⟨settles_step rfl rfl, SnapshotCache.holds_step rfl, ?_⟩
    intro m hm
    obtain rfl := hvalue m hm
    exact ⟨SnapshotCache.selected_read (v := secretHashes), read_selected secretHashes s⟩
  store own m hholds hselected := Prog.safe_atomic fun s k _ =>
    ⟨.storesSecrets hholds hselected rfl, settles_step rfl rfl,
      SnapshotCache.holds_step rfl hholds⟩
  unlock own hholds := Prog.safe_atomic fun s k _ =>
    ⟨.unlocksSecrets hholds rfl, settles_step rfl rfl⟩

/-- What `IsDuplicate` answers, and where it read it. -/
def AnswersDuplicate (appID tag : String) (own : List ServerStep)
    (value : Except QueueError Bool) : Prop :=
  ∀ duplicate, value = .ok duplicate →
    ∃ m, activeJobs.Read own m ∧ duplicate = m.contains (appID, tag)

theorem store_isDuplicate {appID tag : String} :
    StoreSafe rt call own (isDuplicate appID tag) fun own' value =>
      Settles own own' ∧ AnswersDuplicate appID tag own' value := by
  unfold isDuplicate
  rw [loadActiveCache_eq]
  apply Prog.safe_bind (store_loadThrough serves_active)
  rintro own₁ (e | m) ⟨hs₁, hread⟩
  · exact ⟨hs₁, by rintro duplicate ⟨⟩⟩
  · refine ⟨hs₁, ?_⟩
    rintro duplicate ⟨⟩
    exact ⟨m, hread m rfl, rfl⟩

/-- What `GetBySecretHash` answers, and where it read it. -/
def AnswersHash (hash : String) (own : List ServerStep) (value : Except AppError (Option App)) :
    Prop :=
  ∀ found, value = .ok found →
    ∃ m, secretHashes.Read own m ∧ found = m.find? fun app => app.webhookSecretHash == hash

theorem store_getBySecretHash {hash : String} :
    StoreSafe rt call own (getBySecretHash hash) fun own' value =>
      Settles own own' ∧ AnswersHash hash own' value := by
  unfold getBySecretHash
  rw [loadSecretHashCache_eq]
  apply Prog.safe_bind (store_loadThrough serves_secrets)
  rintro own₁ (e | m) ⟨hs₁, hread⟩
  · exact ⟨hs₁, by rintro found ⟨⟩⟩
  · refine ⟨hs₁, ?_⟩
    rintro found ⟨⟩
    exact ⟨m, hread m rfl, rfl⟩

end Load

end AutoDeploy
