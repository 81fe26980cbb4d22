import AutoDeploy.ServiceUnit
import AutoDeploy.StoreActionCalls

namespace AutoDeploy

open Interleaving

/-- No two apps have one unit file. -/
def OwnUnits (isPrint : Char → Bool) (s : Server) : Prop :=
  ∀ a ∈ s.apps.rows, ∀ b ∈ s.apps.rows, a.id ≠ b.id → ∀ unit other,
    serviceUnitBaseAndFile isPrint a.serviceName = .ok unit →
    serviceUnitBaseAndFile isPrint b.serviceName = .ok other → unit.2 ≠ other.2

/-- Two service names that differ in the suffix only. -/
def Collides (isPrint : Char → Bool) (name other : String) : Prop :=
  (validateServiceUnitName isPrint name = .ok () ∧ other = name ++ ".service") ∨
    (validateServiceUnitName isPrint other = .ok () ∧ name = other ++ ".service")

/-- A row that an action writes takes a service name that no other app has in its other form. -/
def Unclaimed (isPrint : Char → Bool) (step : ServerStep) : Prop :=
  ∀ app ∈ step.after.apps.rows, app ∉ step.before.apps.rows →
    ∀ other ∈ step.before.apps.rows, other.id ≠ app.id →
      ¬ Collides isPrint app.serviceName other.serviceName

theorem validateServiceUnitName_chars {isPrint : Char → Bool} {name : String}
    (h : validateServiceUnitName isPrint name = .ok ()) :
    ∀ r ∈ name.toList, isUnitNameChar r = true := by
  unfold validateServiceUnitName at h
  split at h
  next => contradiction
  next =>
    split at h
    next => contradiction
    next =>
      split at h
      next => contradiction
      next =>
        split at h
        next => contradiction
        next hchars => simpa using hchars

theorem trimSuffix_valid {isPrint : Char → Bool} {name : String}
    (h : validateServiceUnitName isPrint name = .ok ()) :
    GoStrings.trimSuffix name ".service" = name := by
  have hdot : '.' ∉ name.toList := by
    intro hm
    have hchar := validateServiceUnitName_chars h '.' hm
    revert hchar
    decide
  unfold GoStrings.trimSuffix
  rw [if_neg]
  intro hsuffix
  have hsub := (List.isSuffixOf_iff_suffix.mp hsuffix).subset
  exact hdot (hsub (by decide))

theorem trimSuffix_suffixed (name : String) :
    GoStrings.trimSuffix (name ++ ".service") ".service" = name := by
  unfold GoStrings.trimSuffix
  rw [String.toList_append, if_pos (List.isSuffixOf_iff_suffix.mpr (List.suffix_append _ _))]
  simp

theorem trimSuffix_cases (name : String) :
    GoStrings.trimSuffix name ".service" = name ∨
      name = GoStrings.trimSuffix name ".service" ++ ".service" := by
  unfold GoStrings.trimSuffix
  split
  next hsuffix =>
    right
    obtain ⟨front, hfront⟩ := List.isSuffixOf_iff_suffix.mp hsuffix
    apply String.toList_injective
    rw [← hfront]
    simp
  next => exact Or.inl rfl

theorem serviceUnitBaseAndFile_ok {isPrint : Char → Bool} {name : String}
    {unit : String × String} (h : serviceUnitBaseAndFile isPrint name = .ok unit) :
    validateServiceUnitName isPrint unit.1 = .ok () ∧
      unit.1 = GoStrings.trimSuffix name ".service" ∧ unit.2 = unit.1 ++ ".service" := by
  unfold serviceUnitBaseAndFile at h
  cases hvalid : validateServiceUnitName isPrint (GoStrings.trimSuffix name ".service") with
  | error e => simp [hvalid, bind, Except.bind] at h
  | ok =>
    simp only [hvalid, bind, Except.bind, pure, Except.pure, Except.ok.injEq] at h
    rw [← h]
    exact ⟨hvalid, rfl, rfl⟩

theorem serviceUnitBaseAndFile_of_valid {isPrint : Char → Bool} {name base : String}
    (hbase : GoStrings.trimSuffix name ".service" = base)
    (hvalid : validateServiceUnitName isPrint base = .ok ()) :
    serviceUnitBaseAndFile isPrint name = .ok (base, base ++ ".service") := by
  simp [serviceUnitBaseAndFile, hbase, hvalid, bind, Except.bind, pure, Except.pure]

/-- Two names give one unit file exactly where they are equal or collide. -/
theorem sameFile_iff {isPrint : Char → Bool} {name other : String} (hne : name ≠ other) :
    (∃ unit unit', serviceUnitBaseAndFile isPrint name = .ok unit ∧
        serviceUnitBaseAndFile isPrint other = .ok unit' ∧ unit.2 = unit'.2) ↔
      Collides isPrint name other := by
  constructor
  · intro ⟨unit, unit', hname, hother, hfile⟩
    obtain ⟨hvalid, hbase, hunit⟩ := serviceUnitBaseAndFile_ok hname
    obtain ⟨_, hbase', hunit'⟩ := serviceUnitBaseAndFile_ok hother
    have hsame : unit.1 = unit'.1 := by
      rw [hunit, hunit'] at hfile
      exact (String.append_left_inj _).mp hfile
    rw [← hsame] at hbase'
    rcases trimSuffix_cases name with hn | hn <;> rcases trimSuffix_cases other with ho | ho
    · exact absurd (hn.symm.trans (hbase.symm.trans (hbase'.trans ho))) hne
    · refine Or.inl ⟨?_, ?_⟩
      · rw [← hn, ← hbase]
        exact hvalid
      · rw [ho, ← hbase', hbase, hn]
    · refine Or.inr ⟨?_, ?_⟩
      · rw [← ho, ← hbase']
        exact hvalid
      · rw [hn, ← hbase, hbase', ho]
    · rw [← hbase] at hn
      rw [← hbase'] at ho
      exact absurd (hn.trans ho.symm) hne
  · intro hcollides
    rcases hcollides with ⟨hvalid, rfl⟩ | ⟨hvalid, rfl⟩
    · exact ⟨_, _, serviceUnitBaseAndFile_of_valid (trimSuffix_valid hvalid) hvalid,
        serviceUnitBaseAndFile_of_valid (trimSuffix_suffixed name) hvalid, rfl⟩
    · exact ⟨_, _, serviceUnitBaseAndFile_of_valid (trimSuffix_suffixed other) hvalid,
        serviceUnitBaseAndFile_of_valid (trimSuffix_valid hvalid) hvalid, rfl⟩

/-- Two rows of the table have names that differ. -/
theorem serviceName_ne {apps : Apps} {a b : App} (ha : a ∈ apps.rows) (hb : b ∈ apps.rows)
    (hid : a.id ≠ b.id) : a.serviceName ≠ b.serviceName := by
  intro he
  have hsame := List.inj_on_of_nodup_map apps.uniqueServiceName ha hb he
  exact hid (by rw [hsame])

theorem ownUnits_iff {isPrint : Char → Bool} {s : Server} :
    OwnUnits isPrint s ↔ ∀ a ∈ s.apps.rows, ∀ b ∈ s.apps.rows, a.id ≠ b.id →
      ¬ Collides isPrint a.serviceName b.serviceName := by
  constructor
  · intro hown a ha b hb hid hcollides
    obtain ⟨unit, other, hunit, hother, hfile⟩ :=
      (sameFile_iff (serviceName_ne ha hb hid)).mpr hcollides
    exact hown a ha b hb hid unit other hunit hother hfile
  · intro h a ha b hb hid unit other hunit hother hfile
    exact h a ha b hb hid
      ((sameFile_iff (serviceName_ne ha hb hid)).mp ⟨unit, other, hunit, hother, hfile⟩)

theorem Collides.symm {isPrint : Char → Bool} {name other : String}
    (h : Collides isPrint name other) : Collides isPrint other name :=
  Or.symm h

section Steps

variable {rt : Runtime} {call : Call} {own : List ServerStep} {step : ServerStep}
  {isPrint : Char → Bool}

/-- An action writes one row of the apps at most, and drops no other unless it only drops. -/
theorem StoreAction.appsChange (h : StoreAction rt call own step) :
    (∀ app ∈ step.after.apps.rows, app ∈ step.before.apps.rows) ∨
      ∃ app, (∀ x ∈ step.after.apps.rows, x = app ∨ x ∈ step.before.apps.rows) ∧
        ∀ x ∈ step.before.apps.rows, x.id ≠ app.id → x ∈ step.after.apps.rows := by
  cases h with
  | @created fields secret id apps _ hinsert h =>
    right
    rw [h]
    refine ⟨fields.newApp id (rt.hashSecret secret), ?_, ?_⟩
    · intro x hx
      rw [Apps.insert_rows hinsert, List.mem_append, List.mem_singleton] at hx
      exact hx.symm
    · intro x hx _
      rw [Apps.insert_rows hinsert]
      exact List.mem_append_left _ hx
  | @updated id set n apps hcall hupdate h =>
    obtain ⟨_, hrows⟩ := Apps.update_rows hupdate
    by_cases htarget : ∃ app ∈ step.before.apps.rows, app.id = id
    · obtain ⟨app, hm, hid⟩ := htarget
      right
      rw [h]
      refine ⟨set app, ?_, ?_⟩
      · intro x hx
        rw [hrows] at hx
        obtain ⟨y, hy, rfl⟩ := List.mem_map.mp hx
        by_cases hyid : y.id = id
        · left
          have hsame := List.inj_on_of_nodup_map step.before.apps.primaryKey hy hm
            (hyid.trans hid.symm)
          rw [hsame, if_pos (by simp [hid])]
        · right
          simpa [hyid] using hy
      · intro x hx hne
        rw [appUpdate_id hcall, hid] at hne
        rw [hrows]
        exact List.mem_map.mpr ⟨x, hx, by simp [hne]⟩
    · left
      intro x hx
      rw [h] at hx
      dsimp only at hx
      rw [hrows] at hx
      obtain ⟨y, hy, rfl⟩ := List.mem_map.mp hx
      have hyid : y.id ≠ id := fun he => htarget ⟨y, hy, he⟩
      simpa [hyid] using hy
  | deleted _ hdelete h =>
    left
    intro x hx
    rw [h] at hx
    dsimp only at hx
    rw [deleteApp_rows hdelete] at hx
    exact (List.mem_filter.mp hx).1
  | reads h | locksActive _ h | unlocksActive _ h | storesActive _ _ h | dropsActive _ h
  | locksSecrets _ h | unlocksSecrets _ h | storesSecrets _ _ h | dropsSecrets _ h
  | inserted _ _ h | rewritten _ _ h | savedEnv _ h | savedArgs _ h =>
    left
    rw [h]
    exact fun _ hx => hx

theorem ownUnits_step (h : StoreAction rt call own step) (hunclaimed : Unclaimed isPrint step)
    (hbefore : OwnUnits isPrint step.before) : OwnUnits isPrint step.after := by
  rw [ownUnits_iff] at hbefore ⊢
  rcases h.appsChange with hold | ⟨app, hwritten, _⟩
  · intro a ha b hb hid
    exact hbefore a (hold a ha) b (hold b hb) hid
  · intro a ha b hb hid hcollides
    by_cases haold : a ∈ step.before.apps.rows
    · by_cases hbold : b ∈ step.before.apps.rows
      · exact hbefore a haold b hbold hid hcollides
      · exact hunclaimed b hb hbold a haold hid hcollides.symm
    · have hbold : b ∈ step.before.apps.rows := by
        have happ := (hwritten a ha).resolve_right haold
        refine (hwritten b hb).resolve_left ?_
        intro he
        exact hid (by rw [happ, he])
      exact hunclaimed a ha haold b hbold (Ne.symm hid) hcollides

theorem unclaimed_of_ownUnits (h : StoreAction rt call own step)
    (hafter : OwnUnits isPrint step.after) : Unclaimed isPrint step := by
  rw [ownUnits_iff] at hafter
  intro app happ hnew other hother hid
  rcases h.appsChange with hold | ⟨written, hwritten, hkept⟩
  · exact absurd (hold app happ) hnew
  · have he := (hwritten app happ).resolve_right hnew
    exact hafter app happ other (hkept other hother (he ▸ hid)) (Ne.symm hid)

end Steps

/-- The apps of a run have unit files of their own exactly if every write takes a service name
that is not the other form of a registered one. -/
theorem ownUnits_run_iff {rt : Runtime} {isPrint : Char → Bool} {s₀ : Server} {cfg : ServerConfig}
    (start : OwnUnits isPrint s₀) (reach : rt.Reaches s₀ cfg) :
    (∀ s ∈ visited s₀ cfg.history, OwnUnits isPrint s) ↔
      ∀ t call step, .acted t call step ∈ cfg.history → Unclaimed isPrint step := by
  constructor
  · intro hown t call step hm
    obtain ⟨own, haction⟩ := acted_store reach hm
    have hstep : step ∈ steps cfg.history := mem_steps.mpr ⟨t, call, hm⟩
    exact unclaimed_of_ownUnits haction
      (hown _ (List.mem_cons_of_mem _ (List.mem_map_of_mem hstep)))
  · intro hunclaimed
    refine visited_invariant reach start ?_
    intro step hm
    obtain ⟨t, call, hacted⟩ := mem_steps.mp hm
    obtain ⟨own, haction⟩ := acted_store reach hacted
    exact ownUnits_step haction (hunclaimed t call step hacted)

theorem ownUnits_started {isPrint : Char → Bool} : OwnUnits isPrint (.started .empty .empty) := by
  intro a ha
  cases ha

/-- Two apps are registered, one with the suffix and one without. -/
def bothForms : List (Turn Choice Call) :=
  solo (.createApp ⟨"api", "/opt/api", "api.service", "acme/api", "api.tar.gz"⟩ "x") 0 5
      ⟨none, "a1"⟩ ++
    solo (.createApp ⟨"spare", "/opt/spare", "api", "acme/spare", "spare.tar.gz"⟩ "y") 1 5
      ⟨none, "a2"⟩

theorem bothForms_shared : ¬ OwnUnits isPrintASCII
    (play (Runtime.program ⟨2, id, id⟩) (.started .empty .empty) bothForms).shared := by
  intro hown
  have hrows : (play (Runtime.program ⟨2, id, id⟩) (.started .empty .empty)
      bothForms).shared.apps.rows =
      [⟨"a1", "api", "x", "/opt/api", "api.service", "acme/api", "api.tar.gz", true⟩,
        ⟨"a2", "spare", "y", "/opt/spare", "api", "acme/spare", "spare.tar.gz", true⟩] := by
    decide +kernel
  refine hown ⟨"a1", "api", "x", "/opt/api", "api.service", "acme/api", "api.tar.gz", true⟩ ?_
    ⟨"a2", "spare", "y", "/opt/spare", "api", "acme/spare", "spare.tar.gz", true⟩ ?_ (by decide)
    ("api", "api.service") ("api", "api.service") (by rfl) (by rfl) rfl
  · rw [hrows]
    exact List.mem_cons_self
  · rw [hrows]
    exact List.mem_cons_of_mem _ List.mem_cons_self

theorem ownUnits_fails : ¬ ∀ (rt : Runtime) (cfg : ServerConfig),
    rt.Reaches (.started .empty .empty) cfg → OwnUnits isPrintASCII cfg.shared := fun h =>
  bothForms_shared (h ⟨2, id, id⟩ _ (reaches_play _ _ bothForms))

theorem ownUnits_run_iff_bothForms : ¬ ∀ t call step, .acted t call step ∈
    (play (Runtime.program ⟨2, id, id⟩) (.started .empty .empty) bothForms).history →
    Unclaimed isPrintASCII step := by
  intro hunclaimed
  have hreach := reaches_play (Runtime.program ⟨2, id, id⟩) (.started .empty .empty) bothForms
  have hown := (ownUnits_run_iff ownUnits_started hreach).mpr hunclaimed
  exact bothForms_shared (hown _ (shared_mem_visited hreach))

end AutoDeploy
