import AutoDeploy.DeployEvents

namespace AutoDeploy

open Interleaving

theorem canceled_canceled (row : JobRow) : row.canceled.canceled = row.canceled := by
  cases hs : row.status <;> simp [JobRow.canceled, JobRow.setStatus, hs]

theorem canceled_isRunning {row : JobRow} (h : row.isRunning = true) :
    row.canceled.isRunning = true ∧ row.canceled.status = .cancelRequested := by
  cases hs : row.status <;>
    simp_all [JobRow.canceled, JobRow.setStatus, JobRow.isRunning, JobStatus.isRunning]

theorem isRunning_cases {row : JobRow} (h : row.isRunning = true) :
    row.status = .inProgress ∨ row.status = .cancelRequested := by
  cases hs : row.status <;> simp_all [JobRow.isRunning, JobStatus.isRunning]

/-- The watcher runs only for a cancel service, and cancels the context only of a deploy that
was asked to stop. -/
structure DeployWorld.Watched (control : Bool) (w : DeployWorld) : Prop where
  watching : w.watching = true → control = true
  canceled : w.ctxCanceled = true → control = true ∧ w.row.status = .cancelRequested

/-- Steps with these events that leave the binary and the backup where they are. -/
structure Extends (own own' : List DeployStep) (w w' : DeployWorld) (events : List DeployEvent) :
    Prop where
  events : emissions own' = emissions own ++ events
  grows : ∀ st ∈ own, st ∈ own'
  steps : ∀ st ∈ own', st ∈ own ∨
    (st.after.disk.binary = w.disk.binary ∧ st.after.disk.backup = w.disk.backup)
  binary : w'.disk.binary = w.disk.binary
  backup : w'.disk.backup = w.disk.backup

/-- Meanwhile a cancel may be requested, and nothing else happens to the job. -/
structure Idles (control : Bool) (w w' : DeployWorld) : Prop where
  row : w'.row = w.row ∨ w'.row = w.row.canceled
  watched : w.row.isRunning = true → w.Watched control → w'.Watched control

structure Leaves (control : Bool) (own own' : List DeployStep) (w w' : DeployWorld)
    (events : List DeployEvent) : Prop
    extends Extends own own' w w' events, Idles control w w'

section Leaves

variable {control : Bool} {own own₁ own' : List DeployStep} {w w₁ w' : DeployWorld}
  {events events' : List DeployEvent}

theorem Extends.trans (h : Extends own own₁ w w₁ events) (h' : Extends own₁ own' w₁ w' events') :
    Extends own own' w w' (events ++ events') where
  events := by rw [h'.events, h.events, List.append_assoc]
  grows st hst := h'.grows st (h.grows st hst)
  steps st hst := by
    rcases h'.steps st hst with hold | ⟨hbinary, hbackup⟩
    · exact h.steps st hold
    · exact Or.inr ⟨hbinary.trans h.binary, hbackup.trans h.backup⟩
  binary := h'.binary.trans h.binary
  backup := h'.backup.trans h.backup

theorem Idles.running (h : Idles control w w') (hrunning : w.row.isRunning = true) :
    w'.row.isRunning = true := by
  rcases h.row with hrow | hrow
  · exact hrow ▸ hrunning
  · exact hrow ▸ (canceled_isRunning hrunning).1

/-- An accepted cancel stays. -/
theorem Idles.requested (h : Idles control w w')
    (hrequested : w.row.status = .cancelRequested) : w'.row.status = .cancelRequested := by
  rcases h.row with hrow | hrow
  · exact hrow ▸ hrequested
  · rw [hrow]
    simp [JobRow.canceled, hrequested]

/-- A row that no cancel can change any more. -/
theorem Idles.settled (h : Idles control w w') (hsettled : w.row.canceled = w.row) :
    w'.row = w.row := by
  rcases h.row with hrow | hrow
  · exact hrow
  · exact hrow.trans hsettled

theorem Idles.trans (h : Idles control w w₁) (h' : Idles control w₁ w') :
    Idles control w w' where
  row := by
    rcases h'.row with hrow' | hrow'
    · rw [hrow']
      exact h.row
    · right
      rcases h.row with hrow | hrow
      · rw [hrow', hrow]
      · rw [hrow', hrow, canceled_canceled]
  watched hrunning hw := h'.watched (h.running hrunning) (h.watched hrunning hw)

theorem Leaves.trans (h : Leaves control own own₁ w w₁ events)
    (h' : Leaves control own₁ own' w₁ w' events') :
    Leaves control own own' w w' (events ++ events') :=
  ⟨h.toExtends.trans h'.toExtends, h.toIdles.trans h'.toIdles⟩

theorem leaves_refl (control : Bool) (own : List DeployStep) (w : DeployWorld) :
    Leaves control own own w w [] :=
  ⟨⟨by simp, fun _ h => h, fun _ h => Or.inl h, rfl, rfl⟩, ⟨Or.inl rfl, fun _ h => h⟩⟩

/-- What other goroutines do before a call keeps the watcher in order. -/
theorem meanwhile_watched {k : Answer} (hrunning : w.row.isRunning = true)
    (h : w.Watched control) : (w.meanwhile k).Watched control := by
  refine ⟨h.watching, ?_⟩
  intro hm
  simp only [DeployWorld.meanwhile, Bool.or_eq_true, Bool.and_eq_true, beq_iff_eq] at hm ⊢
  by_cases hk : k.cancel = true
  · simp only [hk, ↓reduceIte]
    refine ⟨?_, (canceled_isRunning hrunning).2⟩
    rcases hm with hctx | ⟨⟨hwatching, -⟩, -⟩
    · exact (h.canceled hctx).1
    · exact h.watching hwatching
  · simp only [hk, Bool.false_eq_true, ↓reduceIte] at hm ⊢
    rcases hm with hctx | ⟨⟨hwatching, -⟩, hs | hs⟩
    · exact h.canceled hctx
    · exact ⟨h.watching hwatching, hs⟩
    · rcases isRunning_cases hrunning with hr | hr <;> rw [hs] at hr <;> cases hr

theorem extends_call {after : DeployWorld} {emitted : List DeployEvent}
    (hbinary : after.disk.binary = w.disk.binary) (hbackup : after.disk.backup = w.disk.backup) :
    Extends own (own ++ [⟨w, emitted, after⟩]) w after emitted where
  events := by simp
  grows st hst := List.mem_append_left _ hst
  steps st hst := by
    rcases List.mem_append.mp hst with hold | hnew
    · exact Or.inl hold
    · rw [List.mem_singleton.mp hnew]
      exact Or.inr ⟨hbinary, hbackup⟩
  binary := hbinary
  backup := hbackup

theorem meanwhile_row (k : Answer) (w : DeployWorld) :
    (w.meanwhile k).row = w.row ∨ (w.meanwhile k).row = w.row.canceled := by
  by_cases hk : k.cancel = true <;> simp [DeployWorld.meanwhile, hk]

/-- One call that keeps the binary, the backup and the row. -/
theorem leaves_call {k : Answer} {after : DeployWorld} {emitted : List DeployEvent}
    (hbinary : after.disk.binary = w.disk.binary) (hbackup : after.disk.backup = w.disk.backup)
    (hrow : after.row = (w.meanwhile k).row)
    (hwatched : (w.meanwhile k).Watched control → after.Watched control) :
    Leaves control own (own ++ [⟨w, emitted, after⟩]) w after emitted where
  toExtends := extends_call hbinary hbackup
  row := hrow ▸ meanwhile_row k w
  watched hrunning hw := hwatched (meanwhile_watched hrunning hw)

theorem wp_call {α : Type} {run : DeployWorld → Answer → α × DeployWorld × List DeployEvent}
    {Q : List DeployStep → DeployWorld → α → Prop}
    (h : ∀ k, Q (own ++ [⟨w, (run (w.meanwhile k) k).2.2, (run (w.meanwhile k) k).2.1⟩])
      (run (w.meanwhile k) k).2.1 (run (w.meanwhile k) k).1) : (call run).Wp Q own w :=
  Prog.wp_atomic h

theorem wp_internal {effect : Answer → DeployWorld → DeployWorld}
    (hdisk : ∀ k w, (effect k w).disk = w.disk) (hrow : ∀ k w, (effect k w).row = w.row)
    (hwatched : ∀ k w, w.Watched control → (effect k w).Watched control) :
    (internal effect).Wp (fun own' w' _ => Leaves control own own' w w' [] ∧ w'.disk = w.disk)
      own w := by
  apply wp_call
  intro k
  have hd : (effect k (w.meanwhile k)).disk = w.disk := hdisk k (w.meanwhile k)
  exact ⟨leaves_call (by rw [hd]) (by rw [hd]) (hrow k _) (hwatched k _), hd⟩

theorem wp_fallible {event : Option GoError → DeployEvent}
    {effect : DeployWorld → Answer → Except GoError DeployWorld}
    {Q : List DeployStep → DeployWorld → Option GoError → Prop}
    (hfault : ∀ k text, Q (own ++ [⟨w, [event (some (.new text))], w.meanwhile k⟩])
      (w.meanwhile k) (some (.new text)))
    (herror : ∀ k e, effect (w.meanwhile k) k = .error e →
      Q (own ++ [⟨w, [event (some e)], w.meanwhile k⟩]) (w.meanwhile k) (some e))
    (hok : ∀ k after, effect (w.meanwhile k) k = .ok after →
      Q (own ++ [⟨w, [event none], after⟩]) after none) :
    (fallible event effect).Wp Q own w := by
  apply wp_call
  intro k
  cases k.fault with
  | some text => exact hfault k text
  | none =>
    cases he : effect (w.meanwhile k) k with
    | error e => exact herror k e he
    | ok after => exact hok k after he

/-- The error is not one of those that stand for a cancel. -/
def GoError.Foreign (err : GoError) : Prop :=
  err.is .contextCanceled = false ∧ err.is .deployCanceled = false

def ForeignErr (err : Option GoError) : Prop := ∀ e, err = some e → e.Foreign

theorem foreign_new (text : String) : (GoError.new text).Foreign := ⟨rfl, rfl⟩

theorem foreignErr_none : ForeignErr none := by
  intro e h
  cases h

theorem foreignErr_some {e : GoError} (h : e.Foreign) : ForeignErr (some e) := by
  intro e' he
  exact Option.some.inj he ▸ h

/-- A fallible call that keeps all files. -/
theorem wp_fallible_keeps {event : Option GoError → DeployEvent}
    {effect : DeployWorld → Answer → Except GoError DeployWorld}
    (hforeign : ∀ w k e, effect w k = .error e → e.Foreign)
    (hkeeps : ∀ w k after, effect w k = .ok after → after = w) :
    (fallible event effect).Wp (fun own' w' err => (Leaves control own own' w w' [event err] ∧
      w'.disk = w.disk) ∧ ForeignErr err) own w := by
  apply wp_fallible
  · intro k text
    exact ⟨⟨leaves_call rfl rfl rfl fun h => h, rfl⟩, foreignErr_some (foreign_new text)⟩
  · intro k e h
    exact ⟨⟨leaves_call rfl rfl rfl fun h => h, rfl⟩, foreignErr_some (hforeign _ _ _ h)⟩
  · intro k after h
    obtain rfl := hkeeps _ _ _ h
    exact ⟨⟨leaves_call rfl rfl rfl fun h => h, rfl⟩, foreignErr_none⟩

end Leaves

section Calls

variable {control : Bool} {own : List DeployStep} {w : DeployWorld}

theorem meanwhile_ctx {k : Answer} (h : w.ctxCanceled = true) :
    (w.meanwhile k).ctxCanceled = true := by
  simp [DeployWorld.meanwhile, h]

/-- The step was one call that kept all files and had this event. -/
abbrev Kept {α : Type} (control : Bool) (own : List DeployStep) (w : DeployWorld)
    (event : α → List DeployEvent) (own' : List DeployStep) (w' : DeployWorld) (value : α) :
    Prop :=
  Leaves control own own' w w' (event value) ∧ w'.disk = w.disk

theorem trackerStart_wp {appID jobID tag : String} :
    (trackerStart appID jobID tag).Wp (Kept control own w fun _ => []) own w :=
  wp_internal (fun _ _ => rfl) (fun _ _ => rfl) fun _ _ h => ⟨h.watching, h.canceled⟩

theorem trackerSetPhase_wp {appID : String} {phase : ProgressStage} :
    (trackerSetPhase appID phase).Wp (Kept control own w fun _ => []) own w :=
  wp_internal (fun _ _ => rfl) (fun _ _ => rfl) fun _ _ h => ⟨h.watching, h.canceled⟩

theorem trackerFinish_wp {appID : String} :
    (trackerFinish appID).Wp (Kept control own w fun _ => []) own w :=
  wp_internal (fun _ _ => rfl) (fun _ _ => rfl) fun _ _ h => ⟨h.watching, h.canceled⟩

theorem trackerFail_wp {appID : String} :
    (trackerFail appID).Wp (Kept control own w fun _ => []) own w :=
  wp_internal (fun _ _ => rfl) (fun _ _ => rfl) fun _ _ h => ⟨h.watching, h.canceled⟩

theorem mkdirAll_wp {dir : String} : (mkdirAll dir).Wp (fun own' w' err =>
    Kept control own w (fun err => [.madeDir dir err]) own' w' err ∧ ForeignErr err) own w :=
  wp_fallible_keeps (fun _ _ _ h => by cases h) fun _ _ _ h => (Except.ok.inj h).symm

theorem chmodFile_wp : chmodFile.Wp (fun own' w' err =>
    Kept control own w (fun err => [.chmod err]) own' w' err ∧ ForeignErr err) own w := by
  apply wp_fallible_keeps
  · intro w k e h
    cases ht : w.disk.tmp with
    | none =>
      simp only [ht, Except.error.injEq] at h
      exact h ▸ ⟨rfl, rfl⟩
    | some content => simp [ht] at h
  · intro w k after h
    cases ht : w.disk.tmp with
    | none => simp [ht] at h
    | some content => simpa [ht] using h.symm

theorem closeTmp_wp : closeTmp.Wp (fun own' w' err =>
    Kept control own w (fun err => [.closed err]) own' w' err ∧ ForeignErr err) own w :=
  wp_fallible_keeps (fun _ _ _ h => by cases h) fun _ _ _ h => (Except.ok.inj h).symm

theorem openTmp_wp : openTmp.Wp (fun own' w' err =>
    Kept control own w (fun err => [.opened err]) own' w' err ∧ ForeignErr err) own w :=
  wp_fallible_keeps (fun _ _ _ h => by cases h) fun _ _ _ h => (Except.ok.inj h).symm

theorem systemctlRestart_wp {site : RestartSite} : (systemctlRestart site).Wp (fun own' w' out =>
    Kept control own w (fun out => [.restarted site out.1]) own' w' out ∧ ForeignErr out.1)
    own w := by
  apply wp_call
  intro k
  refine ⟨⟨leaves_call rfl rfl rfl fun h => h, rfl⟩, ?_⟩
  intro e h
  obtain ⟨text, -, rfl⟩ := Option.map_eq_some_iff.mp h
  exact foreign_new text

theorem systemctlIsActive_wp :
    systemctlIsActive.Wp (Kept control own w fun out => [.checkedActive out.2 out.1]) own w :=
  wp_call fun _ => ⟨leaves_call rfl rfl rfl fun h => h, rfl⟩

theorem timing_wp : timing.Wp (Kept control own w fun _ => []) own w :=
  wp_call fun _ => ⟨leaves_call rfl rfl rfl fun h => h, rfl⟩

theorem osStat_wp {path : DeployPath} : (osStat path).Wp (fun own' w' size =>
    Kept control own w (fun size => [.stat path size]) own' w' size ∧
      size = (w.disk.get path).map List.length) own w :=
  wp_call fun _ => ⟨⟨leaves_call rfl rfl rfl fun h => h, rfl⟩, rfl⟩

theorem contextErr_wp : contextErr.Wp (fun own' w' err =>
    Kept control own w (fun err => [.contextErr err]) own' w' err ∧
      err = (if w'.ctxCanceled then some contextCanceled else none) ∧
      (w.ctxCanceled = true → w'.ctxCanceled = true)) own w :=
  wp_call fun _ => ⟨⟨leaves_call rfl rfl rfl fun h => h, rfl⟩, rfl, meanwhile_ctx⟩

theorem readStatus_wp {phase : DeployPhase} : (readStatus phase).Wp (fun own' w' result =>
    Kept control own w (fun result => [.statusRead phase result]) own' w' result ∧
      ((∃ text, result = .error (.new text)) ∨ result = .ok w'.row.status)) own w := by
  apply wp_call
  intro k
  cases k.fault with
  | some text => exact ⟨⟨leaves_call rfl rfl rfl fun h => h, rfl⟩, Or.inl ⟨text, rfl⟩⟩
  | none => exact ⟨⟨leaves_call rfl rfl rfl fun h => h, rfl⟩, Or.inr rfl⟩

theorem readMagic_wp : readMagic.Wp (fun own' w' result => ∃ err,
    Kept control own w (fun _ => [.magicRead err]) own' w' result ∧
      ((∃ e, result = .error e ∧ e.Foreign) ∨
        result = .ok ((w.disk.tmp.getD []).take 4))) own w := by
  apply wp_call
  intro k
  cases k.fault with
  | some text =>
    exact ⟨some (.new text), ⟨leaves_call rfl rfl rfl fun h => h, rfl⟩,
      Or.inl ⟨_, rfl, foreign_new text⟩⟩
  | none => exact ⟨none, ⟨leaves_call rfl rfl rfl fun h => h, rfl⟩, Or.inr rfl⟩

/-- The effect of a rename. -/
structure Moves (control : Bool) (own own' : List DeployStep) (w w' : DeployWorld)
    (src dst : DeployPath) (content : Content) : Prop extends Idles control w w' where
  events : emissions own' = emissions own ++ [.renamed src dst none]
  grows : ∀ st ∈ own, st ∈ own'
  last : ∃ st ∈ own', st.after.disk = w'.disk
  source : w.disk.get src = some content
  disk : w'.disk = (w.disk.set (some content) dst).set none src

theorem idles_meanwhile {k : Answer} : Idles control w (w.meanwhile k) :=
  ⟨meanwhile_row k w, meanwhile_watched⟩

theorem renameFile_wp {src dst : DeployPath} : (renameFile src dst).Wp (fun own' w' err =>
    (∃ e, err = some e ∧
      Kept control own w (fun _ => [.renamed src dst (some e)]) own' w' err ∧ e.Foreign) ∨
    (err = none ∧ ∃ content, Moves control own own' w w' src dst content)) own w := by
  apply wp_fallible
  · intro k text
    exact Or.inl ⟨_, rfl, ⟨leaves_call rfl rfl rfl fun h => h, rfl⟩, foreign_new text⟩
  · intro k e h
    cases hs : (w.meanwhile k).disk.get src with
    | none =>
      simp only [hs, Except.error.injEq] at h
      exact Or.inl ⟨_, rfl, ⟨leaves_call rfl rfl rfl fun h => h, rfl⟩, h ▸ ⟨rfl, rfl⟩⟩
    | some content => simp [hs] at h
  · intro k after h
    cases hs : (w.meanwhile k).disk.get src with
    | none => simp [hs] at h
    | some content =>
      simp only [hs, Except.ok.injEq] at h
      subst h
      have hidles : Idles control w (w.meanwhile k) := idles_meanwhile
      refine Or.inr ⟨rfl, content, ⟨hidles.row, fun hr hw => ?_⟩, by simp, ?_, ?_, hs, rfl⟩
      · exact ⟨(hidles.watched hr hw).watching, (hidles.watched hr hw).canceled⟩
      · exact fun st hst => List.mem_append_left _ hst
      · exact ⟨_, List.mem_append_right _ (List.mem_singleton_self _), rfl⟩

/-- A removed temporary file is gone, and so is one that was not there. -/
theorem osRemove_wp {site : RemoveSite} : (osRemove site).Wp (fun own' w' err =>
    Leaves control own own' w w' [.removed site err] ∧
      (w.ctxCanceled = true → w'.ctxCanceled = true) ∧
      (w.disk.tmp = none → w'.disk.tmp = none) ∧
      (err = none ∨ (∃ e, err = some e ∧ e.is .notExist = true) → w'.disk.tmp = none) ∧
      ForeignErr err) own w := by
  apply wp_fallible
  · intro k text
    refine ⟨leaves_call rfl rfl rfl fun h => h, meanwhile_ctx, id, ?_,
      foreignErr_some (foreign_new text)⟩
    rintro (h | ⟨e, h, he⟩)
    · cases h
    · cases h
      simp [GoError.is, GoError.new] at he
  · intro k e h
    cases ht : (w.meanwhile k).disk.tmp with
    | none =>
      simp only [ht, Except.error.injEq] at h
      exact ⟨leaves_call rfl rfl rfl fun h => h, meanwhile_ctx, fun _ => rfl, fun _ => rfl,
        foreignErr_some (h ▸ ⟨rfl, rfl⟩)⟩
    | some content => simp [ht] at h
  · intro k after h
    cases ht : (w.meanwhile k).disk.tmp with
    | none => simp [ht] at h
    | some content =>
      simp only [ht, Except.ok.injEq] at h
      subst h
      exact ⟨leaves_call rfl rfl rfl fun h => ⟨h.watching, h.canceled⟩, meanwhile_ctx,
        fun _ => rfl, fun _ => rfl, foreignErr_none⟩

theorem removeIfExists_wp {site : RemoveSite} : (removeIfExists site).Wp (fun own' w' err =>
    ∃ raw, Leaves control own own' w w' [.removed site raw] ∧
      ((err = none ∧ w'.disk.tmp = none ∧ ∀ e, raw = some e → e.is .notExist = true) ∨
        ∃ e, err = some e ∧ raw = some e ∧ e.is .notExist = false ∧ e.Foreign)) own w := by
  unfold removeIfExists
  apply Prog.wp_bind osRemove_wp
  rintro own' w' raw ⟨hl, -, -, hgone, hforeign⟩
  cases raw with
  | none => exact ⟨none, hl, Or.inl ⟨rfl, hgone (Or.inl rfl), by simp⟩⟩
  | some e =>
    cases he : e.is .notExist with
    | true =>
      refine ⟨some e, hl, Or.inl ⟨by simp [he], hgone (Or.inr ⟨e, rfl, he⟩), ?_⟩⟩
      rintro e' h
      exact Option.some.inj h ▸ he
    | false => exact ⟨some e, hl, Or.inr ⟨e, by simp [he], rfl, he, hforeign e rfl⟩⟩

end Calls

end AutoDeploy
