import AutoDeploy.InterleavingAlone
import Mathlib.Logic.Hydra

namespace Interleaving

variable {σ κ ε α β ρ γ μ : Type}

/-- What an action does to the mutexes for a thread that holds the first of the two, or none, when
it starts, and the second when it ends. -/
inductive Takes (locked : μ → σ → Bool) (before after : σ) : Option μ → Option μ → Prop
  | keeps {held : Option μ} : (∀ m, locked m after = locked m before) →
      Takes locked before after held held
  | locks {m : μ} : locked m before = false → locked m after = true →
      (∀ other, other ≠ m → locked other after = locked other before) →
      Takes locked before after none (some m)
  | unlocks {m : μ} : locked m after = false →
      (∀ other, other ≠ m → locked other after = locked other before) →
      Takes locked before after (some m) none

namespace Prog

/-- A program that holds at most one mutex at a time, never waits while it holds one, waits only
for mutexes while it holds none, and ends with `final`. -/
def Orderly (locked : μ → σ → Bool) (final : Option μ) : Option μ → Prog σ κ ε α → Prop
  | held, ret _ => held = final
  | held, act ready effect next => ∀ s k,
      ((held = none → ∀ m, locked m s = false) → ready s k = true) ∧
      (ready s k = true → ∃ held', Takes locked s (effect s k).1 held held' ∧
        (next s k).Orderly locked final held')

variable {locked : μ → σ → Bool} {held mid final : Option μ}

theorem orderly_bind {first : Prog σ κ ε β} {rest : β → Prog σ κ ε α}
    (hf : first.Orderly locked mid held) (hr : ∀ value, (rest value).Orderly locked final mid) :
    (first >>= rest).Orderly locked final held := by
  change (first.bind rest).Orderly locked final held
  induction first generalizing held with
  | ret value =>
    obtain rfl : held = mid := hf
    exact hr value
  | act ready effect next ih =>
    intro s k
    obtain ⟨hfree, hnext⟩ := hf s k
    refine ⟨hfree, fun hready => ?_⟩
    obtain ⟨held', htakes, hrest⟩ := hnext hready
    exact ⟨held', htakes, ih s k hrest⟩

theorem orderly_map {f : β → α} {p : Prog σ κ ε β} (h : p.Orderly locked final held) :
    (f <$> p).Orderly locked final held :=
  orderly_bind h fun _ => rfl

theorem orderly_atomic {run : σ → κ → α × σ × List ε}
    (h : ∀ s k, Takes locked s (run s k).2.1 held final) :
    (atomic run).Orderly locked final held :=
  fun s k => ⟨fun _ => rfl, fun _ => ⟨final, h s k, rfl⟩⟩

theorem orderly_await {ready : σ → Bool} {run : σ → κ → α × σ × List ε}
    (hfree : ∀ s, (∀ m, locked m s = false) → ready s = true)
    (h : ∀ s k, ready s = true → Takes locked s (run s k).2.1 none final) :
    (await ready run : Prog σ κ ε α).Orderly locked final none :=
  fun s k => ⟨fun hopen => hfree s (hopen rfl), fun hready => ⟨final, h s k hready, rfl⟩⟩

/-- What one action of a program leaves to do. -/
def Leaves (rest p : Prog σ κ ε α) : Prop :=
  ∃ ready effect next s k, p = act ready effect next ∧ rest = next s k

theorem leaves_wf : WellFounded (Leaves : Prog σ κ ε α → Prog σ κ ε α → Prop) := by
  refine ⟨fun p => ?_⟩
  induction p with
  | ret value => exact ⟨_, fun rest ⟨_, _, _, _, _, h, _⟩ => by cases h⟩
  | act ready effect next ih =>
    refine ⟨_, ?_⟩
    rintro rest ⟨_, _, _, s, k, h, rfl⟩
    cases h
    exact ih s k

end Prog

/-- One action of a call that has started. -/
inductive Acts : Config σ κ ε ρ γ → Config σ κ ε ρ γ → Prop
  | intro {cfg : Config σ κ ε ρ γ} {t : ℕ} {call : γ} {ready : σ → κ → Bool}
      {effect : σ → κ → σ × List ε} {next : σ → κ → Prog σ κ ε ρ} (k : κ) :
      cfg.threads[t]? = some ⟨call, some (.act ready effect next)⟩ →
      ready cfg.shared k = true →
      Acts cfg (cfg.perform t call (effect cfg.shared k) (next cfg.shared k))

/-- A step of a call that has started: one of its actions, or its return. -/
inductive Advances : Config σ κ ε ρ γ → Config σ κ ε ρ γ → Prop
  | act {cfg cfg' : Config σ κ ε ρ γ} : Acts cfg cfg' → Advances cfg cfg'
  | ret {cfg : Config σ κ ε ρ γ} {t : ℕ} {call : γ} {value : ρ} :
      cfg.threads[t]? = some ⟨call, some (.ret value)⟩ →
      Advances cfg (cfg.finish t call value)

namespace Config

/-- What the calls that have started have still to do. -/
def remaining (cfg : Config σ κ ε ρ γ) : Multiset (Prog σ κ ε ρ) :=
  (cfg.threads.filterMap Thread.rest : List (Prog σ κ ε ρ))

/-- Every call has returned. -/
def Quiet (cfg : Config σ κ ε ρ γ) : Prop := ∀ thread ∈ cfg.threads, thread.rest = none

end Config

section Remaining

variable {cfg cfg' : Config σ κ ε ρ γ}

theorem coe_filterMap_cons {thread : Thread σ κ ε ρ γ} {threads : List (Thread σ κ ε ρ γ)} :
    ((thread :: threads).filterMap Thread.rest : Multiset (Prog σ κ ε ρ)) =
      (thread.rest.toList : Multiset _) + (threads.filterMap Thread.rest : Multiset _) := by
  cases hrest : thread.rest <;> simp [hrest]

theorem coe_filterMap_set {threads : List (Thread σ κ ε ρ γ)} {t : ℕ}
    {old new : Thread σ κ ε ρ γ} (h : threads[t]? = some old) :
    ((threads.set t new).filterMap Thread.rest : Multiset (Prog σ κ ε ρ)) +
        (old.rest.toList : Multiset _) =
      (threads.filterMap Thread.rest : Multiset _) + (new.rest.toList : Multiset _) := by
  induction threads generalizing t with
  | nil => simp at h
  | cons thread threads ih =>
    cases t with
    | zero =>
      obtain rfl : thread = old := by simpa using h
      rw [List.set_cons_zero, coe_filterMap_cons, coe_filterMap_cons]
      ac_rfl
    | succ t =>
      rw [List.set_cons_succ, coe_filterMap_cons, coe_filterMap_cons, add_assoc, add_assoc]
      rw [ih (by simpa using h)]

theorem Advances.remaining (h : Advances cfg cfg') :
    Relation.CutExpand Prog.Leaves cfg'.remaining cfg.remaining := by
  cases h with
  | act h =>
    obtain @⟨t, call, ready, effect, next, k, ht, -⟩ := h
    refine ⟨{next cfg.shared k}, .act ready effect next, ?_, ?_⟩
    · intro rest hm
      obtain rfl := Multiset.mem_singleton.mp hm
      exact ⟨ready, effect, next, cfg.shared, k, rfl, rfl⟩
    · exact coe_filterMap_set ht
  | @ret t call value ht =>
    refine ⟨0, .ret value, by simp, ?_⟩
    exact coe_filterMap_set ht

/-- No run of the calls that have started goes on for ever. -/
theorem advances_wf : WellFounded fun cfg' cfg : Config σ κ ε ρ γ => Advances cfg cfg' :=
  Subrelation.wf (fun h => h.remaining) (InvImage.wf Config.remaining Prog.leaves_wf.cutExpand)

theorem Advances.moves {program : γ → Prog σ κ ε ρ} (h : Advances cfg cfg') :
    Moves program cfg cfg' := by
  cases h with
  | act h =>
    obtain ⟨k, ht, hready⟩ := h
    exact .act k ht hready
  | ret ht => exact .ret ht

theorem reaches_advances {program : γ → Prog σ κ ε ρ} {s₀ : σ} (reach : Reaches program s₀ cfg)
    (h : Relation.ReflTransGen Advances cfg cfg') : Reaches program s₀ cfg' := by
  induction h with
  | refl => exact reach
  | tail _ hlast ih => exact ih.next hlast.moves

end Remaining

/-- The threads are orderly, a mutex is locked exactly while one of them holds it, and `holds` says
what each of them holds. -/
structure Mannered (locked : μ → σ → Bool) (holds : ℕ → Option μ) (cfg : Config σ κ ε ρ γ) :
    Prop where
  rest : ∀ (t : ℕ) (call : γ) (rest : Prog σ κ ε ρ), cfg.threads[t]? = some ⟨call, some rest⟩ →
    rest.Orderly locked none (holds t)
  ended : ∀ t, (∀ (call : γ) (rest : Prog σ κ ε ρ), cfg.threads[t]? ≠ some ⟨call, some rest⟩) →
    holds t = none
  locked : ∀ m, locked m cfg.shared = true ↔ ∃ t, holds t = some m
  alone : ∀ t u m, holds t = some m → holds u = some m → t = u

section Mannered

variable {locked : μ → σ → Bool} {program : γ → Prog σ κ ε ρ} {holds : ℕ → Option μ} {s₀ : σ}
  {cfg cfg' : Config σ κ ε ρ γ}

/-- The thread `t` has done to the mutexes what its step says. -/
theorem Takes.holders {before after : σ} {t : ℕ} {held' : Option μ}
    (htakes : Takes locked before after (holds t) held')
    (hlocked : ∀ m, locked m before = true ↔ ∃ t, holds t = some m)
    (halone : ∀ t u m, holds t = some m → holds u = some m → t = u) :
    (∀ m, locked m after = true ↔ ∃ u, (if t = u then held' else holds u) = some m) ∧
      ∀ u w m, (if t = u then held' else holds u) = some m →
        (if t = w then held' else holds w) = some m → u = w := by
  have hholds : ∀ u m, (if t = u then held' else holds u) = some m ↔
      (t = u ∧ held' = some m) ∨ (t ≠ u ∧ holds u = some m) := by
    intro u m
    by_cases he : t = u <;> simp [he]
  simp only [hholds]
  generalize hheld : holds t = held at htakes
  cases htakes with
  | keeps hsame =>
    have hiff : ∀ u m, (t = u ∧ held' = some m) ∨ (t ≠ u ∧ holds u = some m) ↔
        holds u = some m := by
      intro u m
      by_cases he : t = u
      · subst he
        simp [hheld]
      · simp [he]
    simp only [hiff, hsame]
    exact ⟨hlocked, halone⟩
  | @locks m hbefore hafter hothers =>
    have hnobody : ∀ u, holds u ≠ some m := by
      intro u hu
      have hl := (hlocked m).mpr ⟨u, hu⟩
      rw [hbefore] at hl
      cases hl
    refine ⟨fun n => ?_, ?_⟩
    · by_cases hn : n = m
      · subst hn
        simp [hafter]
      · rw [hothers n hn, hlocked n]
        constructor
        · rintro ⟨u, hu⟩
          refine ⟨u, Or.inr ⟨?_, hu⟩⟩
          rintro rfl
          rw [hheld] at hu
          cases hu
        · rintro ⟨u, ⟨-, hm⟩ | ⟨-, hu⟩⟩
          · exact absurd (Option.some.inj hm).symm hn
          · exact ⟨u, hu⟩
    · rintro u w n (⟨rfl, hm⟩ | ⟨hu, hun⟩) (⟨rfl, hm'⟩ | ⟨hw, hwn⟩)
      · rfl
      · cases hm
        exact absurd hwn (hnobody w)
      · cases hm'
        exact absurd hun (hnobody u)
      · exact halone u w n hun hwn
  | @unlocks m hafter hothers =>
    refine ⟨fun n => ?_, ?_⟩
    · by_cases hn : n = m
      · subst hn
        simp only [hafter, Bool.false_eq_true, reduceCtorEq, and_false, false_or, false_iff,
          not_exists, not_and]
        exact fun u hne hu => hne (halone t u n hheld hu)
      · rw [hothers n hn, hlocked n]
        constructor
        · rintro ⟨u, hu⟩
          refine ⟨u, Or.inr ⟨?_, hu⟩⟩
          rintro rfl
          exact hn (Option.some.inj (hu.symm.trans hheld))
        · rintro ⟨u, ⟨-, hm⟩ | ⟨-, hu⟩⟩
          · cases hm
          · exact ⟨u, hu⟩
    · rintro u w n (⟨-, hm⟩ | ⟨-, hun⟩) (⟨-, hm'⟩ | ⟨-, hwn⟩)
      · cases hm
      · cases hm
      · cases hm'
      · exact halone u w n hun hwn

theorem mannered_start (hopen : ∀ m, locked m s₀ = false) :
    Mannered locked (fun _ => none) (⟨s₀, [], []⟩ : Config σ κ ε ρ γ) where
  rest t call rest h := by simp at h
  ended _ _ := rfl
  locked m := by simp [hopen]
  alone t u m h := by cases h

theorem Mannered.begin (h : Mannered locked holds cfg) {call : γ}
    (hcall : (program call).Orderly locked none none) :
    Mannered locked holds (cfg.begin program call) where
  rest t other rest ht := by
    simp only [Config.begin] at ht
    by_cases hlt : t < cfg.threads.length
    · rw [List.getElem?_append_left hlt] at ht
      exact h.rest t other rest ht
    · have hnone : holds t = none := by
        apply h.ended
        intro call' rest' hold
        exact hlt (List.getElem?_eq_some_iff.mp hold).1
      rw [List.getElem?_append_right (by omega), List.getElem?_singleton] at ht
      split at ht
      next =>
        cases ht
        rw [hnone]
        exact hcall
      next => cases ht
  ended t ht := by
    apply h.ended
    intro call' rest' hold
    refine ht call' rest' ?_
    simp only [Config.begin]
    rw [List.getElem?_append_left (List.getElem?_eq_some_iff.mp hold).1]
    exact hold
  locked := h.locked
  alone := h.alone

theorem Mannered.finish (h : Mannered locked holds cfg) {t : ℕ} {call : γ} {value : ρ}
    (ht : cfg.threads[t]? = some ⟨call, some (.ret value)⟩) :
    Mannered locked holds (cfg.finish t call value) where
  rest u other rest hu := by
    simp only [Config.finish] at hu
    by_cases he : t = u
    · subst he
      rw [List.getElem?_set_self (List.getElem?_eq_some_iff.mp ht).1] at hu
      cases hu
    · rw [List.getElem?_set_ne he] at hu
      exact h.rest u other rest hu
  ended u hu := by
    by_cases he : t = u
    · subst he
      exact h.rest t call (.ret value) ht
    · apply h.ended
      intro call' rest' hold
      refine hu call' rest' ?_
      simp only [Config.finish]
      rw [List.getElem?_set_ne he]
      exact hold
  locked := h.locked
  alone := h.alone

theorem Mannered.perform (h : Mannered locked holds cfg) {t : ℕ} {call : γ}
    {ready : σ → κ → Bool} {effect : σ → κ → σ × List ε} {next : σ → κ → Prog σ κ ε ρ} {k : κ}
    (ht : cfg.threads[t]? = some ⟨call, some (.act ready effect next)⟩)
    (hready : ready cfg.shared k = true) :
    ∃ holds', Mannered locked holds'
      (cfg.perform t call (effect cfg.shared k) (next cfg.shared k)) := by
  obtain ⟨held', htakes, hnext⟩ := (h.rest t call _ ht cfg.shared k).2 hready
  have hlt := (List.getElem?_eq_some_iff.mp ht).1
  have hself : (if t = t then held' else holds t) = held' := if_pos rfl
  have hother : ∀ u, t ≠ u → (if t = u then held' else holds u) = holds u :=
    fun _ hne => if_neg hne
  refine ⟨fun u => if t = u then held' else holds u, ?_, ?_, ?_, ?_⟩
  · intro u other rest hu
    simp only [Config.perform] at hu
    by_cases he : t = u
    · subst he
      rw [List.getElem?_set_self hlt] at hu
      cases hu
      rw [hself]
      exact hnext
    · rw [List.getElem?_set_ne he] at hu
      rw [hother u he]
      exact h.rest u other rest hu
  · intro u hu
    simp only [Config.perform] at hu
    by_cases he : t = u
    · subst he
      exact absurd (List.getElem?_set_self hlt) (hu call (next cfg.shared k))
    · rw [hother u he]
      apply h.ended
      intro call' rest' hold
      exact hu call' rest' (by rw [List.getElem?_set_ne he]; exact hold)
  · exact (htakes.holders h.locked h.alone).1
  · exact (htakes.holders h.locked h.alone).2

theorem reaches_mannered (orderly : ∀ call, (program call).Orderly locked none none)
    (hopen : ∀ m, locked m s₀ = false) (reach : Reaches program s₀ cfg) :
    ∃ holds, Mannered locked holds cfg := by
  induction reach with
  | start => exact ⟨_, mannered_start hopen⟩
  | next _ move ih =>
    obtain ⟨holds, h⟩ := ih
    cases move with
    | call call => exact ⟨holds, h.begin (orderly call)⟩
    | act k ht hready => exact h.perform ht hready
    | ret ht => exact ⟨holds, h.finish ht⟩

/-- The program of this thread goes on with an action. -/
def Config.Acting (cfg : Config σ κ ε ρ γ) (t : ℕ) : Prop :=
  ∃ call ready effect next, cfg.threads[t]? = some ⟨call, some (.act ready effect next)⟩

/-- Nobody waits for ever: where a thread goes on with an action, one can act. -/
theorem Mannered.acts (h : Mannered locked holds cfg) {t : ℕ} (hacting : cfg.Acting t) :
    ∃ (u : ℕ) (call : γ) (ready : σ → κ → Bool) (effect : σ → κ → σ × List ε)
      (next : σ → κ → Prog σ κ ε ρ), cfg.threads[u]? = some ⟨call, some (.act ready effect next)⟩ ∧
        ∀ k, ready cfg.shared k = true := by
  by_cases hlocked : ∃ m, locked m cfg.shared = true
  · obtain ⟨m, hm⟩ := hlocked
    obtain ⟨u, hu⟩ := (h.locked m).mp hm
    obtain ⟨call, rest, hrest⟩ : ∃ (call : γ) (rest : Prog σ κ ε ρ),
        cfg.threads[u]? = some ⟨call, some rest⟩ := by
      by_contra hnone
      rw [h.ended u fun call rest hrest => hnone ⟨call, rest, hrest⟩] at hu
      cases hu
    have horderly := h.rest u call rest hrest
    rw [hu] at horderly
    cases rest with
    | ret value => cases horderly
    | act ready effect next =>
      exact ⟨u, call, ready, effect, next, hrest, fun k => (horderly _ k).1 (by simp)⟩
  · obtain ⟨call, ready, effect, next, ht⟩ := hacting
    refine ⟨t, call, ready, effect, next, ht, fun k => ?_⟩
    exact (h.rest t call _ ht _ k).1 fun _ m => by simpa using fun hm => hlocked ⟨m, hm⟩

/-- A thread that has nothing left but to return holds nothing. -/
theorem Mannered.open (h : Mannered locked holds cfg) (hnobody : ∀ t, ¬ cfg.Acting t) (m : μ) :
    locked m cfg.shared = false := by
  rw [← Bool.not_eq_true, h.locked]
  rintro ⟨t, ht⟩
  by_cases hrest : ∃ (call : γ) (rest : Prog σ κ ε ρ), cfg.threads[t]? = some ⟨call, some rest⟩
  · obtain ⟨call, rest, hrest⟩ := hrest
    have horderly := h.rest t call rest hrest
    cases rest with
    | ret value =>
      rw [show holds t = none from horderly] at ht
      cases ht
    | act ready effect next => exact hnobody t ⟨call, ready, effect, next, hrest⟩
  · rw [h.ended t fun call rest hthread => hrest ⟨call, rest, hthread⟩] at ht
    cases ht

/-- Where no call that has started can go on, all have returned. -/
theorem Mannered.quiet [Nonempty κ] (h : Mannered locked holds cfg)
    (hstuck : ∀ cfg', ¬ Advances cfg cfg') : cfg.Quiet := by
  intro thread hm
  obtain ⟨t, ht⟩ := List.mem_iff_getElem?.mp hm
  obtain ⟨call, rest⟩ := thread
  cases rest with
  | none => rfl
  | some rest =>
    cases rest with
    | ret value => exact absurd (.ret ht) (hstuck _)
    | act ready effect next =>
      obtain ⟨u, call', ready', effect', next', hu, hready⟩ := h.acts ⟨call, _, _, _, ht⟩
      obtain ⟨k⟩ := ‹Nonempty κ›
      exact absurd (.act (.intro k hu (hready k))) (hstuck _)

theorem Takes.held {before after : σ} {held held' : Option μ}
    (htakes : Takes locked before after held held')
    (h : ∀ m, locked m before = true ↔ held = some m) (m : μ) :
    locked m after = true ↔ held' = some m := by
  cases htakes with
  | keeps hsame => rw [hsame, h]
  | @locks n _ hafter hothers =>
    by_cases hn : m = n
    · subst hn
      simp [hafter]
    · rw [hothers m hn, h]
      simp [Ne.symm hn]
  | @unlocks n hafter hothers =>
    by_cases hn : m = n
    · subst hn
      simp [hafter]
    · rw [hothers m hn, h]
      simp [Ne.symm hn]

/-- An orderly thread can go on alone to its return, when the mutexes are as it left them. -/
theorem acts_alone {p : Prog σ κ ε ρ} {held : Option μ} {t : ℕ} {call : γ} (answers : ℕ → κ)
    (horderly : p.Orderly locked none held)
    (hheld : ∀ m, locked m cfg.shared = true ↔ held = some m)
    (ht : cfg.threads[t]? = some ⟨call, some p⟩) :
    ∃ cfg', Relation.ReflTransGen Acts cfg cfg' ∧
      cfg'.shared = (p.alone answers cfg.shared).state ∧
      cfg'.threads = cfg.threads.set t ⟨call, some (.ret (p.alone answers cfg.shared).value)⟩ := by
  induction p generalizing held cfg answers with
  | ret value =>
    refine ⟨cfg, .refl, rfl, ?_⟩
    obtain ⟨hlt, hthread⟩ := List.getElem?_eq_some_iff.mp ht
    simp only [Prog.alone]
    rw [← hthread, List.set_getElem_self]
  | act ready effect next ih =>
    obtain ⟨hfree, hnext⟩ := horderly cfg.shared (answers 0)
    have hready : ready cfg.shared (answers 0) = true := by
      apply hfree
      rintro rfl m
      simpa using (hheld m).not.mpr (by simp)
    obtain ⟨held', htakes, hrest⟩ := hnext hready
    have hlt := (List.getElem?_eq_some_iff.mp ht).1
    have hafter : (cfg.perform t call (effect cfg.shared (answers 0))
        (next cfg.shared (answers 0))).threads[t]? =
          some ⟨call, some (next cfg.shared (answers 0))⟩ := List.getElem?_set_self hlt
    obtain ⟨cfg', hacts, hshared, hthreads⟩ := ih cfg.shared (answers 0)
      (fun n => answers (n + 1)) hrest (htakes.held hheld) hafter
    refine ⟨cfg', hacts.head (.intro _ ht hready), hshared, ?_⟩
    rw [hthreads, Config.perform, List.set_set]
    rfl

end Mannered

end Interleaving
