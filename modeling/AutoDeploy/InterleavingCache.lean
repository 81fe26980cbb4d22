import AutoDeploy.InterleavingMoment

namespace Interleaving

variable {σ κ ε ρ γ τ μ : Type}

/-- A cached selection from a table, in a shared state. A mutex keeps the rebuilds and the
invalidations of the cache apart, and readers do without it. -/
structure SnapshotCache (σ τ μ : Type) where
  table : σ → τ
  select : τ → μ
  cache : σ → Option μ
  locked : σ → Bool

namespace SnapshotCache

def Changes (v : SnapshotCache σ τ μ) (step : Step σ ε) : Prop :=
  v.table step.after ≠ v.table step.before

/-- After the step there is no snapshot, and no rebuild that could publish one. -/
def Clears (v : SnapshotCache σ τ μ) (step : Step σ ε) : Prop :=
  v.cache step.after = none ∧ v.locked step.after = false

def Locks (v : SnapshotCache σ τ μ) (step : Step σ ε) : Prop :=
  v.locked step.before = false ∧ v.locked step.after = true

def Unlocks (v : SnapshotCache σ τ μ) (step : Step σ ε) : Prop :=
  v.locked step.before = true ∧ v.locked step.after = false

/-- These steps of a thread have changed the table, and nothing was cleared since. -/
def Dirty (v : SnapshotCache σ τ μ) (own : List (Step σ ε)) : Prop :=
  own.foldl (fun dirty step => v.Changes step ∨ (dirty ∧ ¬ v.Clears step)) False

/-- These steps of a thread have taken the mutex, and have not given it back. -/
def Holds (v : SnapshotCache σ τ μ) (own : List (Step σ ε)) : Prop :=
  own.foldl (fun held step => v.Locks step ∨ (held ∧ ¬ v.Unlocks step)) False

/-- Nobody but the owner of these steps is in a critical section of the cache. -/
def Free (v : SnapshotCache σ τ μ) (own : List (Step σ ε)) (s : σ) : Prop :=
  v.locked s = true → v.Holds own

/-- These steps have read this selection since they took the mutex. -/
def Selected (v : SnapshotCache σ τ μ) (own : List (Step σ ε)) (m : μ) : Prop :=
  own.foldl (fun read step => m = v.select (v.table step.before) ∨ (read ∧ ¬ v.Locks step)) False

/-- These steps have read this selection, from the cache or from the table. -/
def Read (v : SnapshotCache σ τ μ) (own : List (Step σ ε)) (m : μ) : Prop :=
  ∃ step ∈ own, v.cache step.before = some m ∨ m = v.select (v.table step.before)

/-- What a step may do to the cache and to the mutex. -/
inductive Moves (v : SnapshotCache σ τ μ) (own : List (Step σ ε)) (step : Step σ ε) : Prop
  | keeps : v.cache step.after = v.cache step.before → v.locked step.after = v.locked step.before →
      Moves v own step
  | locks : v.Locks step → v.cache step.after = v.cache step.before → Moves v own step
  | unlocks : v.Holds own → v.locked step.after = false →
      v.cache step.after = v.cache step.before → Moves v own step
  | publishes {m : μ} : v.Holds own → v.Selected own m → v.cache step.after = some m →
      v.locked step.after = v.locked step.before → Moves v own step
  | drops : v.locked step.before = false → v.Clears step → Moves v own step

section Own

variable {v : SnapshotCache σ τ μ} {own : List (Step σ ε)} {step : Step σ ε} {m : μ}

theorem dirty_snoc :
    v.Dirty (own ++ [step]) ↔ v.Changes step ∨ (v.Dirty own ∧ ¬ v.Clears step) := by
  simp [Dirty]

theorem holds_snoc :
    v.Holds (own ++ [step]) ↔ v.Locks step ∨ (v.Holds own ∧ ¬ v.Unlocks step) := by
  simp [Holds]

theorem selected_snoc : v.Selected (own ++ [step]) m ↔
    m = v.select (v.table step.before) ∨ (v.Selected own m ∧ ¬ v.Locks step) := by
  simp [Selected]

theorem clean_step (htable : v.table step.after = v.table step.before) (hclean : ¬ v.Dirty own) :
    ¬ v.Dirty (own ++ [step]) := by
  rw [dirty_snoc]
  rintro (hchanges | ⟨hdirty, -⟩)
  · exact hchanges htable
  · exact hclean hdirty

theorem clean_clears (htable : v.table step.after = v.table step.before)
    (hclears : v.Clears step) : ¬ v.Dirty (own ++ [step]) := by
  rw [dirty_snoc]
  rintro (hchanges | ⟨-, hnot⟩)
  · exact hchanges htable
  · exact hnot hclears

theorem holds_locks (h : v.Locks step) : v.Holds (own ++ [step]) := holds_snoc.mpr (Or.inl h)

theorem holds_step (hlocked : v.locked step.after = v.locked step.before) (h : v.Holds own) :
    v.Holds (own ++ [step]) := by
  refine holds_snoc.mpr (Or.inr ⟨h, ?_⟩)
  rintro ⟨hbefore, hafter⟩
  rw [hlocked, hbefore] at hafter
  cases hafter

theorem holds_same (hlocked : v.locked step.after = v.locked step.before) :
    v.Holds (own ++ [step]) ↔ v.Holds own := by
  refine ⟨?_, holds_step hlocked⟩
  intro h
  rcases holds_snoc.mp h with ⟨hbefore, hafter⟩ | ⟨hheld, -⟩
  · rw [hlocked, hbefore] at hafter
    cases hafter
  · exact hheld

theorem not_holds_unlocks (h : v.Unlocks step) : ¬ v.Holds (own ++ [step]) := by
  intro hholds
  rcases holds_snoc.mp hholds with ⟨hbefore, -⟩ | ⟨-, hnot⟩
  · have hlocked := h.1
    rw [hbefore] at hlocked
    cases hlocked
  · exact hnot h

theorem free_step (h : v.Free own step.before) :
    v.Free (own ++ [step]) step.after := by
  intro hlocked
  rw [holds_snoc]
  by_cases hbefore : v.locked step.before = true
  · refine Or.inr ⟨h hbefore, ?_⟩
    intro hunlocks
    rw [hunlocks.2] at hlocked
    cases hlocked
  · exact Or.inl ⟨by simpa using hbefore, hlocked⟩

theorem selected_read : v.Selected (own ++ [step]) (v.select (v.table step.before)) :=
  selected_snoc.mpr (Or.inl rfl)

/-- Between a change of a thread and its rest stands an invalidation of its own. -/
theorem clears_after {later : List (Step σ ε)} (hclean : ¬ v.Dirty (own ++ step :: later))
    (hchanges : v.Changes step) : ∃ clear ∈ later, v.Clears clear := by
  induction later using List.reverseRecOn with
  | nil => exact absurd (dirty_snoc.mpr (Or.inl hchanges)) hclean
  | append_singleton later last ih =>
    rw [← List.cons_append, ← List.append_assoc, dirty_snoc, not_or] at hclean
    by_cases hclears : v.Clears last
    · exact ⟨last, by simp, hclears⟩
    · obtain ⟨clear, hm, hc⟩ := ih fun hdirty => hclean.2 ⟨hdirty, hclears⟩
      exact ⟨clear, List.mem_append_left _ hm, hc⟩

theorem Read.mono {own' : List (Step σ ε)} (h : v.Read own m) (hown : own ⊆ own') :
    v.Read own' m := by
  obtain ⟨step, hstep, hm⟩ := h
  exact ⟨step, hown hstep, hm⟩

end Own

/-- A selection from the table as it was at some moment, since which nothing was cleared. -/
def Current (v : SnapshotCache σ τ μ) (s₀ : σ) (history : List (Record σ ε ρ γ)) (m : μ) :
    Prop :=
  ∃ early late, history = early ++ late ∧ m = v.select (v.table (now s₀ early)) ∧
    ∀ t call step, .acted t call step ∈ late → ¬ v.Clears step

/-- A selection from the table as it was at some moment, since which no call has cleared the
cache that had returned before. -/
def Fresh (v : SnapshotCache σ τ μ) (s₀ : σ) (history pre : List (Record σ ε ρ γ)) (m : μ) :
    Prop :=
  ∃ early late, history = early ++ late ∧ m = v.select (v.table (now s₀ early)) ∧
    ∀ t call step, .acted t call step ∈ late → v.Clears step →
      ∀ other value, .returned t other value ∉ pre

/-- The mutex has one holder at most, and what is published or about to be is current. -/
structure Coherent (v : SnapshotCache σ τ μ) (s₀ s : σ) (history : List (Record σ ε ρ γ)) :
    Prop where
  state : s = now s₀ history
  held : ∀ t, v.Holds (ownSteps t history) → v.locked s = true
  alone : ∀ t u, v.Holds (ownSteps t history) → v.Holds (ownSteps u history) → t = u
  read : ∀ t m, v.Holds (ownSteps t history) → v.Selected (ownSteps t history) m →
    v.Current s₀ history m
  published : ∀ m, v.cache s = some m → v.Current s₀ history m

section Coherence

variable {v : SnapshotCache σ τ μ} {s₀ s : σ} {history : List (Record σ ε ρ γ)} {t : ℕ}
  {call : γ} {value : ρ} {step : Step σ ε} {m : μ}

/-- A record that clears nothing keeps a selection current. -/
theorem Current.record {record : Record σ ε ρ γ} (h : v.Current s₀ history m)
    (hrecord : ∀ step, record.step? = some step → ¬ v.Clears step) :
    v.Current s₀ (history ++ [record]) m := by
  obtain ⟨early, late, rfl, hm, hlate⟩ := h
  refine ⟨early, late ++ [record], by simp, hm, ?_⟩
  intro t call step hstep
  rcases List.mem_append.mp hstep with hold | hlast
  · exact hlate t call step hold
  · exact hrecord step (by rw [← List.mem_singleton.mp hlast]; rfl)

/-- What a step reads is current after it. -/
theorem current_read (hbefore : step.before = now s₀ history) (hclears : ¬ v.Clears step) :
    v.Current s₀ (history ++ [.acted t call step]) (v.select (v.table step.before)) := by
  refine ⟨history, [.acted t call step], rfl, by rw [hbefore], ?_⟩
  intro u other st hstep
  cases List.mem_singleton.mp hstep
  exact hclears

theorem Coherent.record {record : Record σ ε ρ γ} (h : v.Coherent s₀ s history)
    (hown : ∀ t, ownSteps t (history ++ [record]) = ownSteps t history)
    (hnow : now s₀ (history ++ [record]) = now s₀ history) (hrecord : record.step? = none) :
    v.Coherent s₀ s (history ++ [record]) where
  state := by rw [hnow, h.state]
  held t := by
    rw [hown]
    exact h.held t
  alone t u := by
    rw [hown, hown]
    exact h.alone t u
  read t m := by
    rw [hown]
    exact fun hholds hread => (h.read t m hholds hread).record (by simp [hrecord])
  published m hm := (h.published m hm).record (by simp [hrecord])

/-- The holders after a step are the holders before, and the thread of the step if it locks. -/
theorem holds_after {u : ℕ} (h : v.Holds (ownSteps u (history ++ [.acted t call step]))) :
    (t = u ∧ v.Locks step) ∨ v.Holds (ownSteps u history) := by
  by_cases he : t = u
  · subst he
    rw [ownSteps_acted_self, holds_snoc] at h
    exact h.imp (fun hlocks => ⟨rfl, hlocks⟩) And.left
  · rw [ownSteps_acted_ne he] at h
    exact Or.inr h

theorem Coherent.acted (h : v.Coherent s₀ step.before history)
    (hmoves : v.Moves (ownSteps t history) step) :
    v.Coherent s₀ step.after (history ++ [.acted t call step]) := by
  have hlocked : ∀ u, v.Holds (ownSteps u (history ++ [.acted t call step])) →
      v.locked step.after = true := by
    intro u hu
    by_cases he : t = u
    · subst he
      rw [ownSteps_acted_self, holds_snoc] at hu
      rcases hu with hlocks | ⟨hheld, hunlocks⟩
      · exact hlocks.2
      · by_contra hfree
        exact hunlocks ⟨h.held t hheld, by simpa using hfree⟩
    · rw [ownSteps_acted_ne he] at hu
      have hbefore := h.held u hu
      cases hmoves with
      | keeps _ hsame => exact hsame.trans hbefore
      | locks hlocks _ => exact hlocks.2
      | unlocks hholds _ _ => exact absurd (h.alone t u hholds hu) he
      | publishes _ _ _ hsame => exact hsame.trans hbefore
      | drops hfree _ =>
        rw [hbefore] at hfree
        cases hfree
  have hclears : ∀ u, v.Holds (ownSteps u (history ++ [.acted t call step])) →
      ¬ v.Clears step := by
    intro u hu hclears
    have hfree := hclears.2
    rw [hlocked u hu] at hfree
    cases hfree
  refine ⟨by simp, hlocked, ?_, ?_, ?_⟩
  · intro u w hu hw
    rcases holds_after hu with ⟨rfl, hlocks⟩ | hu'
    · rcases holds_after hw with ⟨rfl, -⟩ | hw'
      · rfl
      · have hbefore := h.held w hw'
        rw [hlocks.1] at hbefore
        cases hbefore
    · rcases holds_after hw with ⟨rfl, hlocks⟩ | hw'
      · have hbefore := h.held u hu'
        rw [hlocks.1] at hbefore
        cases hbefore
      · exact h.alone u w hu' hw'
  · intro u m hu hread
    have hkept : v.Current s₀ history m → v.Current s₀ (history ++ [.acted t call step]) m :=
      fun hm => hm.record (by rintro st ⟨⟩; exact hclears u hu)
    by_cases he : t = u
    · subst he
      rw [ownSteps_acted_self, selected_snoc] at hread
      rcases hread with rfl | ⟨hread, hlocks⟩
      · exact current_read h.state (hclears t hu)
      · rcases holds_after hu with ⟨-, hlocks'⟩ | hu'
        · exact absurd hlocks' hlocks
        · exact hkept (h.read t m hu' hread)
    · rw [ownSteps_acted_ne he] at hread
      rcases holds_after hu with ⟨rfl, -⟩ | hu'
      · exact absurd rfl he
      · exact hkept (h.read u m hu' hread)
  · intro m hm
    have hkept : v.Current s₀ history m → v.Current s₀ (history ++ [.acted t call step]) m := by
      refine fun hcurrent => hcurrent.record ?_
      rintro st ⟨⟩ ⟨hnone, -⟩
      rw [hnone] at hm
      cases hm
    cases hmoves with
    | keeps hsame _ => exact hkept (h.published m (hsame ▸ hm))
    | locks _ hsame => exact hkept (h.published m (hsame ▸ hm))
    | unlocks _ _ hsame => exact hkept (h.published m (hsame ▸ hm))
    | publishes hholds hread hsome hsame =>
      obtain rfl := Option.some.inj (hsome.symm.trans hm)
      exact hkept (h.read t _ hholds hread)
    | drops _ hclears =>
      rw [hclears.1] at hm
      cases hm

end Coherence

section Runs

variable {v : SnapshotCache σ τ μ} {program : γ → Prog σ κ ε ρ} {I : σ → Prop}
  {R : γ → List (Step σ ε) → Step σ ε → Prop} {Q : γ → List (Step σ ε) → ρ → Prop} {s₀ : σ}
  {cfg : Config σ κ ε ρ γ}

/-- What is needed of the programs: their steps move the cache by the protocol, and they return
only when they have cleared it after their changes. -/
structure Follows (v : SnapshotCache σ τ μ) (program : γ → Prog σ κ ε ρ) : Prop where
  safe : ∀ call, (program call).Safe (fun _ => True) (fun own step => v.Moves own step)
    (fun own _ => ¬ v.Dirty own) []

theorem reaches_coherent (follows : v.Follows program) (start : v.cache s₀ = none)
    (reach : Reaches program s₀ cfg) : v.Coherent s₀ cfg.shared cfg.history := by
  refine reaches_invariant (R := fun _ own step => v.Moves own step)
    (Q := fun _ own _ => ¬ v.Dirty own) (J := fun s history => v.Coherent s₀ s history)
    follows.safe (fun _ _ _ _ _ => trivial) trivial ?_ ?_ ?_ ?_ reach
  · refine ⟨rfl, ?_, ?_, ?_, ?_⟩
    · exact fun _ h => h.elim
    · exact fun _ _ h => h.elim
    · exact fun _ _ h => h.elim
    · intro m hm
      rw [start] at hm
      cases hm
  · exact fun s history t call ih => ih.record (fun _ => ownSteps_called) now_called rfl
  · exact fun history t call step _ ih hmoves => ih.acted hmoves
  · exact fun s history t call value _ ih _ =>
      ih.record (fun _ => ownSteps_returned) now_returned rfl

/-- A thread that has returned has cleared the cache. -/
theorem returned_clean (follows : v.Follows program) (reach : Reaches program s₀ cfg) {t : ℕ}
    {call : γ} {value : ρ} (hm : .returned t call value ∈ cfg.history) :
    ¬ v.Dirty (ownSteps t cfg.history) := by
  obtain ⟨pre, post, hsplit⟩ := List.append_of_mem hm
  rw [ownSteps_final reach hsplit]
  exact reaches_explained (R := fun _ own step => v.Moves own step)
    (Q := fun _ own _ => ¬ v.Dirty own) follows.safe (fun _ _ _ _ _ => trivial) trivial reach pre _
    post hsplit

/-- What an action reads is current where the action stands. -/
theorem acted_current (follows : v.Follows program) (start : v.cache s₀ = none)
    (reach : Reaches program s₀ cfg) {mid rest : List (Record σ ε ρ γ)} {t : ℕ} {call : γ}
    {step : Step σ ε} (h : cfg.history = mid ++ .acted t call step :: rest) {m : μ}
    (hm : v.cache step.before = some m ∨ m = v.select (v.table step.before)) :
    v.Current s₀ mid m := by
  obtain ⟨there, hreach, hhistory, hshared⟩ := reaches_before reach h
  have hcoherent := reaches_coherent follows start hreach
  rw [← hhistory]
  rcases hm with hcached | rfl
  · exact hcoherent.published m (hshared ▸ hcached)
  · refine ⟨there.history, [], by simp, ?_, by simp⟩
    rw [← hcoherent.state, hshared]

/-- What a thread reads is selected from the table of some moment. -/
theorem read_moment (follows : v.Follows program) (start : v.cache s₀ = none)
    (reach : Reaches program s₀ cfg) {t : ℕ} {m : μ}
    (hread : v.Read (ownSteps t cfg.history) m) :
    ∃ early late, cfg.history = early ++ late ∧ m = v.select (v.table (now s₀ early)) := by
  obtain ⟨step, hstep, hm⟩ := hread
  obtain ⟨call, hacted⟩ := mem_ownSteps.mp hstep
  obtain ⟨mid, rest, hsplit⟩ := List.append_of_mem hacted
  obtain ⟨early, late, hlate, hselect, -⟩ := acted_current follows start reach hsplit hm
  exact ⟨early, late ++ .acted t call step :: rest, by rw [hsplit, hlate]; simp, hselect⟩

/-- What a thread reads from the cache or from the table is fresh for everything that had
returned before the thread was called. -/
theorem read_fresh (follows : v.Follows program) (start : v.cache s₀ = none)
    (reach : Reaches program s₀ cfg) {pre post : List (Record σ ε ρ γ)} {t : ℕ} {call : γ}
    (hcalled : cfg.history = pre ++ .called t call :: post) {m : μ}
    (hread : v.Read (ownSteps t cfg.history) m) : v.Fresh s₀ cfg.history pre m := by
  obtain ⟨step, hstep, hm⟩ := hread
  obtain ⟨other, hacted⟩ := mem_ownSteps.mp hstep
  obtain ⟨mid, rest, hsplit⟩ := List.append_of_mem hacted
  obtain ⟨between, hbetween⟩ := split_after_call reach hcalled hsplit rfl (by simp)
  obtain ⟨early, late, hlate, hselect, hkept⟩ := acted_current follows start reach hsplit hm
  refine ⟨early, late ++ .acted t other step :: rest, by rw [hsplit, hlate]; simp, hselect, ?_⟩
  intro u c st hst hclears d value hreturned
  have hmid : .returned u d value ∈ mid := by
    rw [hbetween]
    exact List.mem_append_left _ hreturned
  rcases List.mem_append.mp hst with hold | hnew
  · exact hkept u c st hold hclears
  · obtain ⟨front, back, rfl⟩ := List.append_of_mem hmid
    rw [List.append_assoc] at hsplit
    exact returned_last reach hsplit _ (List.mem_append_right _ hnew) rfl

/-- What a call read is fresh when it returns. -/
theorem span_fresh (follows : v.Follows program) (start : v.cache s₀ = none)
    (reach : Reaches program s₀ cfg) {pre mid post : List (Record σ ε ρ γ)} {t : ℕ} {call : γ}
    {value : ρ} (h : Spans cfg.history pre mid post t call value) {m : μ}
    (hread : v.Read (ownSteps t cfg.history) m) :
    v.Fresh s₀ (pre ++ .called t call :: mid) pre m := by
  obtain ⟨there, hreach, hhistory, hown⟩ := reaches_span reach h
  rw [← hhistory]
  exact read_fresh follows start hreach hhistory (hown ▸ hread)

/-- A step of a call that had returned, and that cleared the cache after it, stands before the
moment of a fresh selection. -/
theorem Fresh.before {history pre : List (Record σ ε ρ γ)} {m : μ}
    (h : v.Fresh s₀ history pre m) :
    ∃ early late, history = early ++ late ∧ m = v.select (v.table (now s₀ early)) ∧
      ∀ front t call step back, history = front ++ .acted t call step :: back →
        (∃ clear ∈ ownSteps t back, v.Clears clear) →
        (∃ other value, .returned t other value ∈ pre) →
        ∃ between, early = front ++ .acted t call step :: between ∧ back = between ++ late := by
  obtain ⟨early, late, hlate, hm, hfresh⟩ := h
  refine ⟨early, late, hlate, hm, ?_⟩
  rintro front t call step back hsplit ⟨clear, hclear, hclears⟩ ⟨other, value, hreturned⟩
  have hnot : clear ∉ ownSteps t late := by
    intro hm
    obtain ⟨c, hacted⟩ := mem_ownSteps.mp hm
    exact hfresh t c clear hacted hclears other value hreturned
  rw [hlate] at hsplit
  rcases List.append_eq_append_iff.mp hsplit with ⟨between, rfl, hrest⟩ | ⟨between, rfl, hrest⟩
  · refine absurd ?_ hnot
    obtain ⟨c, hacted⟩ := mem_ownSteps.mp hclear
    refine mem_ownSteps.mpr ⟨c, ?_⟩
    rw [hrest]
    exact List.mem_append_right _ (List.mem_cons_of_mem _ hacted)
  · cases between with
    | nil =>
      refine absurd ?_ hnot
      obtain ⟨c, hacted⟩ := mem_ownSteps.mp hclear
      refine mem_ownSteps.mpr ⟨c, ?_⟩
      rw [List.nil_append] at hrest
      rw [← hrest]
      exact List.mem_cons_of_mem _ hacted
    | cons first between =>
      obtain ⟨rfl, rfl⟩ := List.cons.inj hrest
      exact ⟨between, rfl, rfl⟩

/-- A change of the table by a call that has returned was cleared after it. -/
theorem change_cleared (follows : v.Follows program) (reach : Reaches program s₀ cfg)
    {early late : List (Record σ ε ρ γ)} (hsplit : cfg.history = early ++ late) {u : ℕ}
    {call other : γ} {step : Step σ ε} {value : ρ} (hacted : .acted u call step ∈ late)
    (hchanges : v.Changes step) (hreturned : .returned u other value ∈ cfg.history) :
    ∃ d clear, .acted u d clear ∈ late ∧ v.Clears clear := by
  obtain ⟨front, back, rfl⟩ := List.append_of_mem hacted
  have hclean := returned_clean follows reach hreturned
  have hown : ownSteps u cfg.history =
      ownSteps u (early ++ front) ++ step :: ownSteps u back := by
    rw [hsplit]
    simp [ownSteps, Record.stepOf]
  rw [hown] at hclean
  obtain ⟨clear, hclear, hclears⟩ := clears_after hclean hchanges
  obtain ⟨d, hd⟩ := mem_ownSteps.mp hclear
  exact ⟨d, clear, List.mem_append_right _ (List.mem_cons_of_mem _ hd), hclears⟩

/-- Since the moment of what a call read, no call has changed the table that had returned when
it started. -/
theorem span_unchanged (follows : v.Follows program) (start : v.cache s₀ = none)
    (reach : Reaches program s₀ cfg) {pre mid post : List (Record σ ε ρ γ)} {t : ℕ} {call : γ}
    {value : ρ} (h : Spans cfg.history pre mid post t call value) {m : μ}
    (hread : v.Read (ownSteps t cfg.history) m) :
    ∃ early late, pre ++ .called t call :: mid = early ++ late ∧
      m = v.select (v.table (now s₀ early)) ∧
      ∀ u c step, .acted u c step ∈ late → v.Changes step →
        ∀ other value, .returned u other value ∉ pre := by
  obtain ⟨there, hreach, hhistory, -⟩ := reaches_span reach h
  obtain ⟨early, late, hlate, hm, hfresh⟩ := span_fresh follows start reach h hread
  refine ⟨early, late, hlate, hm, ?_⟩
  intro u c step hacted hchanges other value hreturned
  have hthere : .returned u other value ∈ there.history := by
    rw [hhistory]
    exact List.mem_append_left _ hreturned
  obtain ⟨d, clear, hclear, hclears⟩ :=
    change_cleared follows hreach (hhistory.trans hlate) hacted hchanges hthere
  exact hfresh u d clear hclear hclears other value hreturned

/-- What a call read while no other call had a change under way is what the table holds. -/
theorem span_quiet (follows : v.Follows program) (start : v.cache s₀ = none)
    (reach : Reaches program s₀ cfg) {pre mid post : List (Record σ ε ρ γ)} {t : ℕ} {call : γ}
    {value : ρ} (h : Spans cfg.history pre mid post t call value) {m : μ}
    (hread : v.Read (ownSteps t cfg.history) m)
    (hquiet : ∀ u other step, .acted u other step ∈ pre ++ .called t call :: mid →
      v.Changes step → ∃ result, .returned u other result ∈ pre) :
    m = v.select (v.table (now s₀ (pre ++ .called t call :: mid))) := by
  obtain ⟨early, late, hlate, rfl, hunchanged⟩ := span_unchanged follows start reach h hread
  obtain ⟨there, hreach, hhistory, -⟩ := reaches_span reach h
  rw [hlate] at hquiet ⊢
  have hkept : ∀ step ∈ steps late, v.table step.before = v.table (now s₀ early) →
      v.table step.after = v.table (now s₀ early) := by
    intro step hm hbefore
    obtain ⟨u, c, hacted⟩ := mem_steps.mp hm
    rw [← hbefore]
    by_contra hchanges
    obtain ⟨result, hreturned⟩ := hquiet u c step (List.mem_append_right _ hacted) hchanges
    exact hunchanged u c step hacted hchanges c result hreturned
  rw [now_kept (P := fun s => v.table s = v.table (now s₀ early)) hreach (hhistory.trans hlate) rfl
    hkept]

/-- When everyone who changed the table has returned, a published selection is that of the
table. -/
theorem published_quiet
    (follows : v.Follows program) (start : v.cache s₀ = none) (reach : Reaches program s₀ cfg)
    (hquiet : ∀ u call step, .acted u call step ∈ cfg.history → v.Changes step →
      ∃ value, .returned u call value ∈ cfg.history) {m : μ} (hm : v.cache cfg.shared = some m) :
    m = v.select (v.table cfg.shared) := by
  obtain ⟨early, late, hsplit, rfl, hlate⟩ :=
    (reaches_coherent follows start reach).published m hm
  have hkept : ∀ step ∈ steps late, v.table step.before = v.table (now s₀ early) →
      v.table step.after = v.table (now s₀ early) := by
    intro step hstep hbefore
    rw [← hbefore]
    by_contra hchanges
    obtain ⟨u, call, hacted⟩ := mem_steps.mp hstep
    obtain ⟨value, hreturned⟩ :=
      hquiet u call step (by rw [hsplit]; exact List.mem_append_right _ hacted) hchanges
    obtain ⟨other, clear, hother, hclears⟩ :=
      change_cleared follows reach hsplit hacted hchanges hreturned
    exact hlate u other clear hother hclears
  rw [reaches_now reach, hsplit, now_kept (P := fun s => v.table s = v.table (now s₀ early)) reach
    hsplit rfl hkept]

end Runs

end SnapshotCache

end Interleaving
