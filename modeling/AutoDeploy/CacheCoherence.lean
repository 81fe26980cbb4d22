import AutoDeploy.StoreActionCalls

namespace AutoDeploy

open Interleaving

/-- The direct query: `SELECT 1 ... WHERE app_id = ? AND tag = ?` over the active rows. -/
def Jobs.HasActive (jobs : Jobs) (appID tag : String) : Prop :=
  ∃ row ∈ jobs.rows, row.isActive = true ∧ row.appID = appID ∧ row.tag = tag

theorem activeKeys_contains {jobs : Jobs} {appID tag : String} :
    jobs.activeKeys.contains (appID, tag) = true ↔ jobs.HasActive appID tag := by
  rw [List.contains_iff_mem, Jobs.mem_activeKeys, Jobs.HasActive]

/-- What holds of every call of `IsDuplicate` in a run. -/
structure IsDuplicateCoherent (s₀ : Server) (cfg : ServerConfig) : Prop where
  /-- The answer is the one of some moment before the return, since which no call has written
  the jobs that had returned when this call started. -/
  fresh : ∀ pre mid post t appID tag duplicate,
    Spans cfg.history pre mid post t (.isDuplicate appID tag) (.duplicate (.ok duplicate)) →
    ∃ early late, pre ++ .called t (.isDuplicate appID tag) :: mid = early ++ late ∧
      (duplicate = true ↔ (now s₀ early).jobs.HasActive appID tag) ∧
      ∀ u call step, .acted u call step ∈ late → step.after.jobs ≠ step.before.jobs →
        ∀ value, .returned u call value ∉ pre
  /-- With no write in flight the answer is the one of the direct query. -/
  quiet : ∀ pre mid post t appID tag duplicate,
    Spans cfg.history pre mid post t (.isDuplicate appID tag) (.duplicate (.ok duplicate)) →
    (∀ u call step, .acted u call step ∈ pre ++ .called t (.isDuplicate appID tag) :: mid →
      step.after.jobs ≠ step.before.jobs → ∃ value, .returned u call value ∈ pre) →
    (duplicate = true ↔
      (now s₀ (pre ++ .called t (.isDuplicate appID tag) :: mid)).jobs.HasActive appID tag)

section Runs

variable {rt : Runtime} {s₀ : Server} {cfg : ServerConfig}

theorem isDuplicate_read (reach : rt.Reaches s₀ cfg)
    {pre mid post : ServerHistory} {t : ℕ} {appID tag : String}
    {duplicate : Bool} (h : Spans cfg.history pre mid post t (.isDuplicate appID tag)
      (.duplicate (.ok duplicate))) :
    ∃ m, activeJobs.Read (ownSteps t cfg.history) m ∧ duplicate = m.contains (appID, tag) := by
  have hanswer := returned_store reach h.returned
  exact hanswer duplicate rfl

end Runs

/-- Over every interleaving of a started server the cache of `IsDuplicate` hides no write. -/
theorem isDuplicate_coherent {rt : Runtime} {jobs : Jobs} {apps : Apps} {cfg : ServerConfig}
    (reach : rt.Reaches (.started jobs apps) cfg) :
    IsDuplicateCoherent (.started jobs apps) cfg where
  fresh pre mid post t appID tag duplicate h := by
    obtain ⟨m, hread, rfl⟩ := isDuplicate_read reach h
    obtain ⟨early, late, hlate, rfl, hunchanged⟩ :=
      SnapshotCache.span_unchanged (follows_active rt) rfl reach h hread
    exact ⟨early, late, hlate, activeKeys_contains, fun u call step hm hchanges =>
      hunchanged u call step hm hchanges call⟩
  quiet pre mid post t appID tag duplicate h hquiet := by
    obtain ⟨m, hread, rfl⟩ := isDuplicate_read reach h
    rw [SnapshotCache.span_quiet (follows_active rt) rfl reach h hread hquiet]
    exact activeKeys_contains

/-- The answers of the calls of `IsDuplicate` that have returned. -/
def duplicateAnswers (history : ServerHistory) : List (ℕ × Bool) :=
  history.filterMap fun record =>
    match record with
    | .returned t _ (.duplicate (.ok duplicate)) => some (t, duplicate)
    | _ => none

/-- A reader has queried for its rebuild when a cancel commits. It publishes what it took, and
the next reader starts after the cancel has returned. -/
def lateRebuild : List (Turn Choice Call) :=
  solo (.enqueue "a" "v1") 0 11 ⟨none, "j1"⟩ ++ solo (.isDuplicate "a" "v1") 1 4 ⟨none, ""⟩ ++
    solo (.requestJobCancel "j1") 2 1 ⟨none, ""⟩ ++ List.replicate 3 (.run 1 ⟨none, ""⟩) ++
    List.replicate 4 (.run 2 ⟨none, ""⟩) ++ solo (.isDuplicate "a" "v1") 3 7 ⟨none, ""⟩

theorem isDuplicate_coherent_lateRebuild :
    duplicateAnswers (play (Runtime.program ⟨2, id, id⟩) (.started .empty .empty)
      lateRebuild).history = [(1, true), (3, false)] ∧
    IsDuplicateCoherent (.started .empty .empty)
      (play (Runtime.program ⟨2, id, id⟩) (.started .empty .empty) lateRebuild) :=
  ⟨by decide +kernel, isDuplicate_coherent (reaches_play _ _ lateRebuild)⟩

end AutoDeploy
