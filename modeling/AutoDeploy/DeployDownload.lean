import AutoDeploy.DeployCalls

namespace AutoDeploy

open Interleaving

/-- The events of a download: still ones, and looks at a canceled context. -/
def DeployEvent.ofDownload (e : DeployEvent) : Bool :=
  e.still || match e with
    | .contextErr (some _) => true
    | _ => false

/-- The job runs, and its watcher is in order. -/
structure Ready (control : Bool) (w : DeployWorld) : Prop where
  running : w.row.isRunning = true
  watched : w.Watched control

/-- How a download fails: stopped by a cancel, or for a reason of its own. -/
structure DownloadFailed (control : Bool) (w : DeployWorld) (events : List DeployEvent)
    (err : GoError) : Prop where
  ofDownload : events.all DeployEvent.ofDownload = true
  notCanceled : err.is .deployCanceled = false
  canceled : err.is .contextCanceled = true → control = true ∧ w.row.status = .cancelRequested
  seen : err.is .contextCanceled = true → events.any DeployEvent.stops = true
  still : err.is .contextCanceled = false → Still events

/-- The artifact is the whole body of a response that was read to its end. -/
def Complete (maxBytes : Int) (events : List DeployEvent) (art : Content) : Prop :=
  ∃ url headers resp, .requested url headers (.ok resp) ∈ events ∧ resp.statusCode = 200 ∧
    resp.body = art ∧ resp.readErr = none ∧
    (0 ≤ resp.contentLength → (art.length : Int) = resp.contentLength) ∧
    (art.length : Int) ≤ maxBytes

section Download

variable {control : Bool} {own₀ own own' : List DeployStep} {w₀ w w' : DeployWorld}
  {events events' : List DeployEvent}

theorem Complete.append {maxBytes : Int} {art : Content} (h : Complete maxBytes events art) :
    Complete maxBytes (events ++ events') art := by
  obtain ⟨url, headers, resp, hrequested, hrest⟩ := h
  exact ⟨url, headers, resp, List.mem_append_left _ hrequested, hrest⟩

theorem Idles.ready (h : Idles control w w') (hready : Ready control w) : Ready control w' :=
  ⟨h.running hready.running, h.watched hready.running hready.watched⟩

theorem ofDownload_of_still (h : Still events) : events.all DeployEvent.ofDownload = true := by
  apply List.all_eq_true.mpr
  intro e he
  simp [DeployEvent.ofDownload, List.all_eq_true.mp h e he]

theorem aside_of_ofDownload (h : events.all DeployEvent.ofDownload = true) : Aside events := by
  apply List.all_eq_true.mpr
  intro e he
  have hof := List.all_eq_true.mp h e he
  simp only [DeployEvent.ofDownload, Bool.or_eq_true] at hof
  rcases hof with hstill | hcanceled
  · simp only [DeployEvent.still, Bool.and_eq_true] at hstill
    exact hstill.1.1
  · split at hcanceled
    next => rfl
    next => cases hcanceled

theorem faults_of_ofDownload (h : events.all DeployEvent.ofDownload = true) :
    events.any DeployEvent.faults = false := by
  apply any_false h
  intro e he
  simp only [DeployEvent.ofDownload, Bool.or_eq_true] at he
  rcases he with hstill | hcanceled
  · simp only [DeployEvent.still, Bool.and_eq_true, Bool.not_eq_true'] at hstill
    exact hstill.2
  · split at hcanceled
    next => rfl
    next => cases hcanceled

theorem DownloadFailed.errorf {err : GoError} {context : String}
    (h : DownloadFailed control w events err) :
    DownloadFailed control w events (.errorf context err) :=
  ⟨h.ofDownload, h.notCanceled, h.canceled, h.seen, h.still⟩

/-- A failure that is not the cancel's. -/
theorem downloadFailed_still {err : GoError} (hstill : Still events)
    (hforeign : err.Foreign) : DownloadFailed control w events err :=
  ⟨ofDownload_of_still hstill, hforeign.2, by simp [hforeign.1], by simp [hforeign.1],
    fun _ => hstill⟩

/-- What `ctx.Err()` says about a deploy after still events. -/
theorem contextErr_ready (hready : Ready control w) (hstill : Still events) :
    contextErr.Wp (fun own' w' err =>
      Kept control own w (fun err => [.contextErr err]) own' w' err ∧
        ((err = none ∧ w.ctxCanceled = false) ∨
          (∃ e, err = some e ∧ DownloadFailed control w' (events ++ [.contextErr (some e)]) e)))
      own w := by
  apply contextErr_wp.mono
  rintro own' w' err ⟨⟨hl, hdisk⟩, herr, hmono⟩
  refine ⟨⟨hl, hdisk⟩, ?_⟩
  cases hc : w'.ctxCanceled with
  | false =>
    refine Or.inl ⟨by simp [herr, hc], ?_⟩
    by_contra hw
    simp [hmono (by simpa using hw)] at hc
  | true =>
    refine Or.inr ⟨contextCanceled, by simp [herr, hc], ?_, rfl, ?_, ?_, ?_⟩
    · rw [List.all_append, ofDownload_of_still hstill]
      rfl
    · exact fun _ => (hl.ready hready).watched.canceled hc
    · simp [DeployEvent.stops]
    · simp [contextCanceled, GoError.is]

theorem clientErr_foreign {w : DeployWorld} {err : GoError} (h : w.ctxCanceled = false) :
    (w.clientErr err).Foreign := by
  simp [DeployWorld.clientErr, GoError.Foreign, GoError.is, h]

theorem clientErr_not_deployCanceled {w : DeployWorld} {err : GoError} :
    (w.clientErr err).is .deployCanceled = false := by
  simp [DeployWorld.clientErr, GoError.is]

theorem doWithRedirects_wp {url : String} {headers : Headers} :
    (doWithRedirects url headers).Wp (fun own' w' result => ∃ answered,
      Kept control own w (fun _ => [.requested url headers answered]) own' w' result ∧
        ((∃ resp, result = .ok resp ∧ answered = .ok resp) ∨
          ∃ e, result = .error e ∧ answered = .error e.err ∧
            (w'.ctxCanceled = false → e.err.Foreign))) own w := by
  apply wp_call
  intro k
  cases k.response with
  | error e =>
    exact ⟨_, ⟨leaves_call rfl rfl rfl fun h => h, rfl⟩, Or.inr ⟨_, rfl, rfl, clientErr_foreign⟩⟩
  | ok resp =>
    exact ⟨_, ⟨leaves_call rfl rfl rfl fun h => h, rfl⟩, Or.inl ⟨resp, rfl, rfl⟩⟩

/-- What the attempts of a download come to. -/
def Attempted (control : Bool) (url : String) (headers : Headers) (w : DeployWorld)
    (events : List DeployEvent) : Except GoError HttpResponse → Prop
  | .error err => DownloadFailed control w events err
  | .ok resp => Still events ∧ artifact events = none ∧
    .requested url headers (.ok resp) ∈ events ∧ resp.statusCode = 200

theorem downloadAttempts_wp {url : String} {headers : Headers} (n : ℕ) {last : GoError}
    (hl : Leaves control own₀ own w₀ w events) (hready : Ready control w₀)
    (hstill : Still events) (hnone : artifact events = none)
    (hlast : last.Foreign) :
    (downloadAttempts url headers n last).Wp (fun own' w' result => ∃ events',
      Leaves control own₀ own' w₀ w' events' ∧ Attempted control url headers w' events' result)
      own w := by
  induction n generalizing own w last events with
  | zero => exact ⟨_, hl, downloadFailed_still hstill hlast⟩
  | succ n ih =>
    unfold downloadAttempts
    apply Prog.wp_bind (contextErr_ready (hl.ready hready) hstill)
    rintro own₁ w₁ err ⟨⟨hl₁, -⟩, ⟨rfl, -⟩ | ⟨e, rfl, hfailed⟩⟩
    · apply Prog.wp_bind doWithRedirects_wp
      rintro own₂ w₂ result ⟨answered, ⟨hl₂, -⟩, h₂⟩
      replace hl₂ := (hl.trans hl₁).trans hl₂
      have hstill₂ := still_snoc (still_snoc hstill (.contextErr none) rfl)
        (.requested url headers answered) rfl
      have hnone₂ : artifact (events ++ [.contextErr none] ++ [.requested url headers answered]) =
          none := by
        rw [List.append_assoc, artifact_append hnone]
        rfl
      rcases h₂ with ⟨resp, rfl, rfl⟩ | ⟨e, rfl, rfl, hforeign⟩
      · simp only
        split
        next => exact ih hl₂ hstill₂ hnone₂ (foreign_new _)
        next =>
          split
          next hok => exact ⟨_, hl₂, hstill₂, hnone₂, by simp, hok⟩
          next => exact ⟨_, hl₂, downloadFailed_still hstill₂ (foreign_new _)⟩
      · apply Prog.wp_bind (contextErr_ready (hl₂.ready hready) hstill₂)
        rintro own₃ w₃ err ⟨⟨hl₃, -⟩, ⟨rfl, hopen⟩ | ⟨err, rfl, hfailed⟩⟩
        · have hstill₃ := still_snoc hstill₂ (.contextErr none) rfl
          simp only
          split
          next =>
            apply ih (hl₂.trans hl₃) hstill₃ _ (hforeign hopen)
            rw [List.append_assoc, List.append_assoc, artifact_append hnone]
            rfl
          next => exact ⟨_, hl₂.trans hl₃, downloadFailed_still hstill₃ (hforeign hopen)⟩
        · exact ⟨_, hl₂.trans hl₃, hfailed⟩
    · exact ⟨_, hl.trans hl₁, hfailed⟩

theorem createTmp_wp : createTmp.Wp (fun own' w' err =>
    Leaves control own own' w w' [.created err] ∧ ForeignErr err) own w := by
  apply wp_fallible
  · intro k text
    exact ⟨leaves_call rfl rfl rfl fun h => h, foreignErr_some (foreign_new text)⟩
  · intro k e h
    cases h
  · intro k after h
    cases h
    exact ⟨leaves_call rfl rfl rfl fun h => ⟨h.watching, h.canceled⟩, foreignErr_none⟩

/-- A copy without an error stored what the limit lets through. -/
theorem copyBody_wp {appID : String} {resp : HttpResponse} {limit : Int} :
    (copyBody appID resp limit).Wp (fun own' w' copied => ∃ stored,
      Leaves control own own' w w' [.copied stored copied.2] ∧ w'.disk.tmp = some stored ∧
        copied.1 = stored.length ∧
        (∀ e, copied.2 = some e → w'.ctxCanceled = false → e.Foreign) ∧
        (copied.2 = none → stored = resp.body.take limit.toNat ∧
          (resp.body.length < limit.toNat → resp.readErr = none))) own w := by
  apply wp_call
  intro k
  cases k.fault with
  | some text =>
    refine ⟨_, leaves_call rfl rfl rfl fun h => ⟨h.watching, h.canceled⟩, rfl, rfl, ?_, by simp⟩
    intro e h _
    cases h
    exact foreign_new text
  | none =>
    refine ⟨_, leaves_call rfl rfl rfl fun h => ⟨h.watching, h.canceled⟩, rfl, rfl, ?_, ?_⟩
    · intro e h hopen
      have herr : (resp.copyErr limit.toNat).map (w.meanwhile k).clientErr = some e := h
      obtain ⟨err, -, rfl⟩ := Option.map_eq_some_iff.mp herr
      exact clientErr_foreign hopen
    · intro h
      have herr : (resp.copyErr limit.toNat).map (w.meanwhile k).clientErr = none := h
      refine ⟨rfl, fun hlt => ?_⟩
      rwa [Option.map_eq_none_iff, HttpResponse.copyErr, if_pos hlt] at herr

theorem cleanupRejectedDownload_wp :
    cleanupRejectedDownload.Wp (fun own' w' _ => ∃ err,
      Leaves control own own' w w' [.removed .rejected err] ∧
        (w.ctxCanceled = true → w'.ctxCanceled = true)) own w := by
  unfold cleanupRejectedDownload
  apply Prog.wp_bind osRemove_wp
  rintro own' w' err ⟨hl, hmono, -⟩
  exact ⟨err, hl, hmono⟩

/-- What the download of a binary comes to. -/
def Fetched (control : Bool) (maxBytes : Int) (w : DeployWorld) (events : List DeployEvent) :
    Except GoError DownloadSummary → Prop
  | .error err => DownloadFailed control w events err
  | .ok _ => Still events ∧ ∃ art, w.disk.tmp = some art ∧
    artifact events = some art ∧ Complete maxBytes events art

variable {maxBytes : Int}

theorem rejectDownload_wp {err : GoError} (hl : Leaves control own₀ own w₀ w events)
    (h : DownloadFailed control w events err) :
    (rejectDownload err).Wp (fun own' w' result => ∃ events',
      Leaves control own₀ own' w₀ w' events' ∧ Fetched control maxBytes w' events' result)
      own w := by
  unfold rejectDownload
  apply Prog.wp_bind cleanupRejectedDownload_wp
  rintro own' w' _ ⟨raw, hl', -⟩
  refine ⟨_, hl.trans hl', ?_, h.notCanceled, ?_, ?_, ?_⟩
  · rw [List.all_append, h.ofDownload]
    rfl
  · exact fun hc => ⟨(h.canceled hc).1, hl'.requested (h.canceled hc).2⟩
  · exact fun hc => by simp [h.seen hc]
  · exact fun hc => still_append (h.still hc) rfl

theorem copyFailed_wp {resp : HttpResponse} {written : ℕ} {err : GoError}
    (hl : Leaves control own₀ own w₀ w events) (hready : Ready control w₀)
    (hstill : Still events)
    (hforeign : w.ctxCanceled = false → err.Foreign) :
    (copyFailed resp written err).Wp (fun own' w' result => ∃ events',
      Leaves control own₀ own' w₀ w' events' ∧ Fetched control maxBytes w' events' result)
      own w := by
  unfold copyFailed
  apply Prog.wp_bind cleanupRejectedDownload_wp
  rintro own₁ w₁ _ ⟨raw, hl₁, hmono⟩
  replace hl₁ := hl.trans hl₁
  have hstill₁ := still_snoc hstill (.removed .rejected raw) rfl
  apply Prog.wp_bind (contextErr_ready (hl₁.ready hready) hstill₁)
  rintro own₂ w₂ ctxErr ⟨⟨hl₂, -⟩, ⟨rfl, hopen⟩ | ⟨e, rfl, hfailed⟩⟩
  · have hstill₂ := still_snoc hstill₁ (.contextErr none) rfl
    have herr : err.Foreign := by
      apply hforeign
      by_contra hc
      simp [hmono (by simpa using hc)] at hopen
    simp only
    split
    next => exact ⟨_, hl₁.trans hl₂, downloadFailed_still hstill₂ herr⟩
    next => exact ⟨_, hl₁.trans hl₂, downloadFailed_still hstill₂ herr⟩
  · exact ⟨_, hl₁.trans hl₂, hfailed⟩

/-- A copy that passes the checks is the whole body. -/
theorem acceptDownload_wp {resp : HttpResponse} {url : String} {headers : Headers}
    {limit : Int} {stored : Content} (hl : Leaves control own₀ own w₀ w events)
    (hready : Ready control w₀) (hstill : Still events)
    (hartifact : artifact events = some stored)
    (hrequested : .requested url headers (.ok resp) ∈ events) (hok : resp.statusCode = 200)
    (htmp : w.disk.tmp = some stored) (hstored : stored = resp.body.take limit.toNat)
    (hread : resp.body.length < limit.toNat → resp.readErr = none) (hlimit : maxBytes < limit) :
    (acceptDownload resp maxBytes stored.length).Wp (fun own' w' result => ∃ events',
      Leaves control own₀ own' w₀ w' events' ∧ Fetched control maxBytes w' events' result)
      own w := by
  unfold acceptDownload
  apply Prog.wp_bind (contextErr_ready (hl.ready hready) hstill)
  rintro own₁ w₁ err ⟨⟨hl₁, hdisk₁⟩, ⟨rfl, -⟩ | ⟨e, rfl, hfailed⟩⟩
  · replace hl₁ := hl.trans hl₁
    have hstill₁ := still_snoc hstill (.contextErr none) rfl
    simp only
    split
    next => exact rejectDownload_wp hl₁ (downloadFailed_still hstill₁ (foreign_new _))
    next hsize =>
      split
      next => exact rejectDownload_wp hl₁ (downloadFailed_still hstill₁ (foreign_new _))
      next hlength =>
        apply Prog.wp_bind closeTmp_wp
        rintro own₂ w₂ err ⟨⟨hl₂, hdisk₂⟩, hforeign⟩
        replace hl₂ := hl₁.trans hl₂
        have hstill₂ := still_snoc hstill₁ (.closed err) rfl
        cases err with
        | some e =>
          exact rejectDownload_wp hl₂ (downloadFailed_still hstill₂ (hforeign e rfl)).errorf
        | none =>
          apply Prog.wp_bind timing_wp
          rintro own₃ w₃ timed ⟨hl₃, hdisk₃⟩
          have hlt : resp.body.length < limit.toNat := by
            rw [hstored, List.length_take] at hsize
            omega
          have hbody : stored = resp.body := by
            rw [hstored, List.take_of_length_le (by omega)]
          refine ⟨_, hl₂.trans hl₃, still_append hstill₂ rfl, stored, ?_, ?_, ?_⟩
          · rw [hdisk₃, hdisk₂, hdisk₁, htmp]
          · exact artifact_found (artifact_found (artifact_found hartifact))
          · refine ⟨url, headers, resp, by simp [hrequested], hok, hbody.symm, hread hlt, ?_, ?_⟩
            · intro hpos
              by_contra hne
              exact hlength ⟨hpos, hne⟩
            · omega
  · exact rejectDownload_wp (hl.trans hl₁) hfailed

theorem probeLimit_lt (hpos : 0 ≤ maxBytes) (hmax : maxBytes < 0x7fffffffffffffff) :
    maxBytes < max (addInt64 maxBytes 1) maxBytes := by
  have hsum : addInt64 maxBytes 1 = maxBytes + 1 :=
    Int.bmod_eq_of_le (by omega) (by omega)
  omega

theorem downloadBinaryContext_wp {appID url : String} {headers : Headers}
    (hl : Leaves control own₀ own w₀ w events) (hready : Ready control w₀)
    (hstill : Still events) (hnone : artifact events = none)
    (hpos : 0 ≤ maxBytes) (hmax : maxBytes < 0x7fffffffffffffff) :
    (downloadBinaryContext appID url headers maxBytes).Wp (fun own' w' result => ∃ events',
      Leaves control own₀ own' w₀ w' events' ∧ Fetched control maxBytes w' events' result)
      own w := by
  unfold downloadBinaryContext downloadWithRetryContext
  apply Prog.wp_bind (downloadAttempts_wp 3 hl hready hstill hnone (foreign_new ""))
  rintro own₁ w₁ result ⟨events₁, hl₁, h₁⟩
  cases result with
  | error err => exact ⟨_, hl₁, h₁.errorf⟩
  | ok resp =>
    obtain ⟨hstill₁, hnone₁, hrequested, hok⟩ := h₁
    simp only
    split
    next => omega
    next =>
      split
      next => exact ⟨_, hl₁, downloadFailed_still hstill₁ (foreign_new _)⟩
      next =>
        apply Prog.wp_bind createTmp_wp
        rintro own₂ w₂ err ⟨hl₂, hforeign⟩
        replace hl₂ := hl₁.trans hl₂
        have hstill₂ := still_snoc hstill₁ (.created err) rfl
        cases err with
        | some e => exact ⟨_, hl₂, (downloadFailed_still hstill₂ (hforeign e rfl)).errorf⟩
        | none =>
          apply Prog.wp_bind copyBody_wp
          rintro own₃ w₃ ⟨written, err⟩ ⟨stored, hl₃, htmp, rfl, hforeign, hcopied⟩
          replace hl₃ := hl₂.trans hl₃
          have hstill₃ := still_snoc hstill₂ (.copied stored err) rfl
          cases err with
          | some e => exact copyFailed_wp hl₃ hready hstill₃ (hforeign e rfl)
          | none =>
            obtain ⟨hstored, hread⟩ := hcopied rfl
            have hmem := List.mem_append_left [.copied stored none]
              (List.mem_append_left [.created none] hrequested)
            refine acceptDownload_wp hl₃ hready hstill₃ ?_ hmem hok htmp hstored hread
              (probeLimit_lt hpos hmax)
            rw [List.append_assoc, artifact_append hnone₁]
            rfl

end Download

end AutoDeploy
