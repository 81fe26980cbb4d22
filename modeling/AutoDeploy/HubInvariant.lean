import AutoDeploy.ClientProgress

namespace AutoDeploy

open Replay

/-- An entry of the tracker: its job belongs to the app, and its numbers fit into an int64. -/
structure TrackedAs (owner : String → String) (appID : String) (snapshot : ProgressSnapshot) :
    Prop where
  app : snapshot.appID = appID
  job : owner snapshot.jobID = appID
  appID_ne : snapshot.appID ≠ ""
  jobID_ne : snapshot.jobID ≠ ""
  downloaded : (Int64.ofInt snapshot.downloadedBytes).toInt = snapshot.downloadedBytes
  total : (Int64.ofInt snapshot.totalBytes).toInt = snapshot.totalBytes
  known : snapshot.totalBytes = -1 ∨ 0 < snapshot.totalBytes

/-- The app has this entry, and its last call is published. -/
def AdminEventHub.Settled (h : AdminEventHub) (appID : String) (snapshot : ProgressSnapshot) :
    Prop := h.tracker.snapshot appID = some snapshot ∧ h.pending appID = none

/-- What the frames in the channel leave of a job: an update that was heard is the last word. -/
def written (heard : Bool) (snapshot : ProgressSnapshot) : Option (Option NormalizedProgress) :=
  if heard then some (some (compactEntry snapshot)) else none

/-- What the page shows of a job in the end. -/
def shown (heard : Bool) (snapshot : ProgressSnapshot) : NormalizedProgress :=
  if heard then compactEntry snapshot else snapshotEntry snapshot

structure ClientInvariant (settled : String → ProgressSnapshot → Prop) (heard : String → Bool)
    (client : AdminEventClient) : Prop where
  panicked : client.panicked = false
  once : client.sendClosed = client.closeOnce
  member : client.registered = true → client.closeOnce = false ∧
    (client.stage = .added ∨ client.stage = .greeted ∨ client.stage = .streaming)
  fresh : client.stage = .fresh → ∀ jobID, heard jobID = false
  waiting : client.registered = true → client.stage ≠ .streaming →
    ∀ appID snapshot, settled appID snapshot →
      Overwrites progressAfter client.send snapshot.jobID (written (heard snapshot.jobID) snapshot)
  streaming : client.registered = true → client.stage = .streaming →
    ∀ appID snapshot, settled appID snapshot →
      replay progressAfter (client.wire ++ client.send) client.page.progress snapshot.jobID =
        some (shown (heard snapshot.jobID) snapshot)

structure HubInvariant (owner : String → String) (heard : ℕ → String → Bool)
    (h : AdminEventHub) : Prop where
  tracked : ∀ appID snapshot, h.tracker.snapshot appID = some snapshot →
    TrackedAs owner appID snapshot
  pending : ∀ appID snapshot, h.pending appID = some snapshot → TrackedAs owner appID snapshot
  current : ∀ appID snapshot snapshot', h.pending appID = some snapshot →
    h.tracker.snapshot appID = some snapshot' → snapshot' = snapshot
  listed : ∀ appID snapshot, h.tracker.snapshot appID = some snapshot → appID ∈ h.apps
  client : ∀ c, ClientInvariant h.Settled (heard c) (h.clients c)

section Client

variable {settled settled' : String → ProgressSnapshot → Prop} {heard heard' : String → Bool}
  {client : AdminEventClient}

theorem written_getD {heard : Bool} {snapshot : ProgressSnapshot} :
    (written heard snapshot).getD (some (snapshotEntry snapshot)) =
      some (shown heard snapshot) := by
  cases heard with
  | false => rfl
  | true => rfl

/-- A client that the hub does not hold is asked for nothing about the jobs. -/
theorem ClientInvariant.unregistered (hpanicked : client.panicked = false)
    (honce : client.sendClosed = client.closeOnce) (hgone : client.registered = false)
    (hfresh : client.stage = .fresh → ∀ jobID, heard jobID = false) :
    ClientInvariant settled heard client := by
  have hmem : client.registered ≠ true := by simp [hgone]
  exact ⟨hpanicked, honce, fun h => absurd h hmem, hfresh, fun h => absurd h hmem,
    fun h => absurd h hmem⟩

theorem absent_invariant : ClientInvariant settled (fun _ => false) .absent :=
  .unregistered rfl rfl rfl fun _ _ => rfl

/-- Fewer settled jobs ask for less. -/
theorem ClientInvariant.mono (hi : ClientInvariant settled heard client)
    (h : ∀ appID snapshot, settled' appID snapshot → settled appID snapshot) :
    ClientInvariant settled' heard client where
  panicked := hi.panicked
  once := hi.once
  member := hi.member
  fresh := hi.fresh
  waiting hmem hstage appID snapshot hsettled :=
    hi.waiting hmem hstage appID snapshot (h appID snapshot hsettled)
  streaming hmem hstage appID snapshot hsettled :=
    hi.streaming hmem hstage appID snapshot (h appID snapshot hsettled)

theorem ClientInvariant.gone (hpanicked : client.panicked = false)
    (honce : client.sendClosed = client.closeOnce) (hgone : client.registered = false)
    (hstage : client.stage ≠ .fresh) : ClientInvariant settled heard client :=
  .unregistered hpanicked honce hgone fun hfresh => absurd hfresh hstage

/-- `closeOnce` keeps a channel from being closed twice. -/
theorem ClientInvariant.close_panicked (hi : ClientInvariant settled heard client) :
    client.close.panicked = false ∧ client.close.sendClosed = client.close.closeOnce := by
  unfold AdminEventClient.close
  split
  next => exact ⟨hi.panicked, hi.once⟩
  next honce =>
    rw [Bool.not_eq_true] at honce
    rw [hi.panicked, hi.once, honce]
    exact ⟨rfl, rfl⟩

/-- The frame of a broadcast either leaves a settled job alone or is the last word on it. -/
theorem ClientInvariant.offer {payload : Json} (hi : ClientInvariant settled heard client)
    (hunheard : client.registered = false → heard' = heard)
    (h : client.registered = true → ∀ appID snapshot, settled' appID snapshot →
      (settled appID snapshot ∧ heard' snapshot.jobID = heard snapshot.jobID ∧
        ∀ progress, progressAfter payload progress snapshot.jobID = progress snapshot.jobID) ∨
      (heard' snapshot.jobID = true ∧
        ∀ progress, progressAfter payload progress snapshot.jobID =
          some (compactEntry snapshot))) :
    ClientInvariant settled' heard' (client.offer payload) := by
  unfold AdminEventClient.offer
  split
  next hmem =>
    obtain ⟨honce, hstage⟩ := hi.member hmem
    have hopen : client.sendClosed = false := hi.once.trans honce
    have hfresh : client.stage ≠ .fresh := by
      intro hfresh
      simp [hfresh] at hstage
    rw [if_neg (by simp [hopen])]
    split
    next =>
      refine ⟨hi.panicked, hi.once, hi.member, fun h' => absurd h' hfresh, ?_, ?_⟩
      · intro _ hwaiting appID snapshot hsettled
        obtain ⟨hold, heq, hleft⟩ | ⟨heard, hput⟩ := h hmem appID snapshot hsettled
        · have hlast : Overwrites progressAfter [payload] snapshot.jobID none :=
            overwrites_singleton hleft
          have hqueue := (hi.waiting hmem hwaiting appID snapshot hold).append hlast
          rwa [Option.none_or, ← heq] at hqueue
        · rw [heard]
          exact overwrites_last hput
      · intro _ hstreaming appID snapshot hsettled
        rw [← List.append_assoc, replay_append]
        obtain ⟨hold, heq, hleft⟩ | ⟨heard, hput⟩ := h hmem appID snapshot hsettled
        · rw [heq, ← hi.streaming hmem hstreaming appID snapshot hold]
          exact hleft _
        · rw [heard]
          exact hput _
    next =>
      have hdropped : ClientInvariant settled heard { client with registered := false } :=
        .gone hi.panicked hi.once rfl hfresh
      exact .gone hdropped.close_panicked.1 hdropped.close_panicked.2 (by simp) (by simpa)
  next hmem =>
    rw [Bool.not_eq_true] at hmem
    rw [hunheard hmem]
    exact .unregistered hi.panicked hi.once hmem hi.fresh

theorem ClientInvariant.add (hi : ClientInvariant settled heard client) (page : AdminEventState) :
    ClientInvariant settled heard (client.add page) := by
  unfold AdminEventClient.add
  split
  next hfresh =>
    refine ⟨rfl, rfl, fun _ => ⟨rfl, Or.inl rfl⟩, (fun h => by cases h), ?_,
      (fun _ h => by cases h)⟩
    intro _ _ appID snapshot _
    rw [hi.fresh hfresh]
    exact overwrites_nil
  next => exact hi

/-- A frame is written to the socket, before everything that the channel holds. -/
theorem ClientInvariant.write {before after : ConnectionStage} {payload : Option Json}
    (hi : ClientInvariant settled heard client) (hafter : after = .greeted ∨ after = .streaming)
    (hwaiting : after ≠ .streaming → before ≠ .streaming)
    (hwritten : after = .streaming → client.registered = true → client.stage = before →
      ∀ data, payload = some data → ∀ appID snapshot, settled appID snapshot →
        replay progressAfter (client.wire ++ data :: client.send) client.page.progress
          snapshot.jobID = some (shown (heard snapshot.jobID) snapshot)) :
    ClientInvariant settled heard (client.write before after payload) := by
  unfold AdminEventClient.write
  split
  next hstage =>
    split
    next data =>
      refine ⟨hi.panicked, hi.once, fun hmem => ⟨(hi.member hmem).1, Or.inr hafter⟩, ?_, ?_, ?_⟩
      · intro hfresh
        simp [show after = .fresh from hfresh] at hafter
      · intro hmem hne
        exact hi.waiting hmem (hstage ▸ hwaiting hne)
      · intro hmem hstreaming appID snapshot hsettled
        rw [List.append_assoc, List.singleton_append]
        exact hwritten hstreaming hmem hstage data rfl appID snapshot hsettled
    next => exact hi
  next => exact hi

theorem ClientInvariant.hello {payload : Option Json}
    (hi : ClientInvariant settled heard client) :
    ClientInvariant settled heard (client.write .added .greeted payload) := by
  apply hi.write (Or.inl rfl)
  · intro _ h
    cases h
  · intro h
    cases h

theorem ClientInvariant.snapshot {payload : Option Json}
    (hi : ClientInvariant settled heard client)
    (h : ∀ data, payload = some data → ∀ appID snapshot, settled appID snapshot →
      ∀ progress, progressAfter data progress snapshot.jobID = some (snapshotEntry snapshot)) :
    ClientInvariant settled heard (client.write .greeted .streaming payload) := by
  apply hi.write (Or.inr rfl) fun hne => absurd rfl hne
  intro _ hmem hstage data hdata appID snapshot hsettled
  have hqueue := hi.waiting hmem (by simp [hstage]) appID snapshot hsettled
  rw [replay_append, replay_cons, hqueue, h data hdata appID snapshot hsettled, written_getD]

theorem ClientInvariant.heartbeat {payload : Option Json}
    (hi : ClientInvariant settled heard client)
    (h : ∀ data, payload = some data → ∀ progress, progressAfter data progress = progress) :
    ClientInvariant settled heard (client.write .streaming .streaming payload) := by
  apply hi.write (Or.inr rfl) fun hne => absurd rfl hne
  intro _ hmem hstage data hdata appID snapshot hsettled
  rw [replay_ignored (h data hdata)]
  exact hi.streaming hmem hstage appID snapshot hsettled

theorem ClientInvariant.forward (hi : ClientInvariant settled heard client) :
    ClientInvariant settled heard client.forward := by
  unfold AdminEventClient.forward
  split
  next hstage =>
    split
    next payload rest hsend =>
      refine ⟨hi.panicked, hi.once, hi.member, hi.fresh, fun _ h => absurd hstage h, ?_⟩
      intro hmem _ appID snapshot hsettled
      have hqueue := hi.streaming hmem hstage appID snapshot hsettled
      rwa [hsend, List.append_cons] at hqueue
    next => exact hi
  next => exact hi

theorem ClientInvariant.receive (hi : ClientInvariant settled heard client) :
    ClientInvariant settled heard client.receive := by
  unfold AdminEventClient.receive
  split
  next data rest hwire =>
    refine ⟨hi.panicked, hi.once, hi.member, hi.fresh, hi.waiting, ?_⟩
    intro hmem hstage appID snapshot hsettled
    have hqueue := hi.streaming hmem hstage appID snapshot hsettled
    rw [hwire, List.cons_append, replay_cons] at hqueue
    rwa [onmessage_progress]
  next => exact hi

theorem ClientInvariant.remove (hi : ClientInvariant settled heard client) :
    ClientInvariant settled heard client.remove := by
  unfold AdminEventClient.remove
  split
  next => exact .gone hi.panicked hi.once rfl (by simp)
  next => exact hi

theorem ClientInvariant.finish (hi : ClientInvariant settled heard client) :
    ClientInvariant settled heard client.finish := by
  unfold AdminEventClient.finish
  split
  next hstage =>
    have hgone : client.registered = false := by
      by_contra hmem
      obtain ⟨-, hmember⟩ := hi.member (by simpa using hmem)
      simp [hstage] at hmember
    exact .gone hi.close_panicked.1 hi.close_panicked.2 (by simpa) (by simp)
  next => exact hi

end Client

end AutoDeploy
