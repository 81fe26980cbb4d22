import AutoDeploy.MigrationRuns

namespace AutoDeploy

open Interleaving

def LegacyRow.isActive (row : LegacyRow) : Bool := (JobStatus.ofText row.status).isActive

/-- Both times of the row are ones that the driver converts. -/
def LegacyRow.Scans (scanTime : String → Option String) (row : LegacyRow) : Prop :=
  (row.createdAt.bind scanTime).isSome = true ∧ (row.updatedAt.bind scanTime).isSome = true

/-- No two rows that count as active have one tag. -/
def ActiveTagsDistinct (rows : List LegacyRow) : Prop :=
  ((rows.filter LegacyRow.isActive).map LegacyRow.tag).Nodup

section Rows

variable {scanTime : String → Option String} {row : LegacyRow} {done : List LegacyRow}
  {jobs : List JobRow}

theorem scanColumn_ok {index : ℕ} {name : String} {column : Option String} :
    (∃ time, scanColumn scanTime index name column = .ok time) ↔
      (column.bind scanTime).isSome = true := by
  cases column with
  | none => simp [scanColumn]
  | some text =>
    cases h : scanTime text with
    | none => simp [scanColumn, h]
    | some time => simp [scanColumn, h]

theorem scanLegacy_scans {scanned : ScannedRow} (h : scanLegacy scanTime row = .ok scanned) :
    row.Scans scanTime ∧ ∀ jobID seq, Migrates row (scanned.job jobID seq) := by
  unfold scanLegacy at h
  cases hc : scanColumn scanTime 3 "created_at" row.createdAt with
  | error e => rw [hc] at h; cases h
  | ok createdAt =>
    cases hu : scanColumn scanTime 4 "updated_at" row.updatedAt with
    | error e => rw [hc, hu] at h; cases h
    | ok updatedAt =>
      rw [hc, hu] at h
      cases h
      refine ⟨⟨scanColumn_ok.mp ⟨_, hc⟩, scanColumn_ok.mp ⟨_, hu⟩⟩, ?_⟩
      intro jobID seq
      refine ⟨rfl, rfl, rfl, ?_⟩
      cases hm : row.errorMsg with
      | none => simp [ScannedRow.job]
      | some text => simp [ScannedRow.job]

theorem scans_scanLegacy (h : row.Scans scanTime) :
    ∃ scanned, scanLegacy scanTime row = .ok scanned := by
  obtain ⟨createdAt, hc⟩ : ∃ time, scanColumn scanTime 3 "created_at" row.createdAt = .ok time :=
    scanColumn_ok.mpr h.1
  obtain ⟨updatedAt, hu⟩ : ∃ time, scanColumn scanTime 4 "updated_at" row.updatedAt = .ok time :=
    scanColumn_ok.mpr h.2
  refine ⟨⟨row.tag, row.status, row.errorMsg.getD "", createdAt, updatedAt⟩, ?_⟩
  simp only [scanLegacy, hc, hu]
  rfl

theorem filled_concat {job : JobRow} (h : Filled done jobs) (hjob : Migrates row job)
    (hseq : ∀ other ∈ jobs, other.seq < job.seq) : Filled (done ++ [row]) (jobs ++ [job]) where
  rows := List.rel_append h.rows (.cons hjob .nil)
  seqs := by
    refine List.pairwise_append.mpr ⟨h.seqs, List.pairwise_singleton _ _, ?_⟩
    intro other hm last hlast
    rw [List.mem_singleton.mp hlast]
    exact hseq other hm

/-- The keys of the active jobs come from the tags of the active legacy rows. -/
theorem migrated_keys (h : List.Forall₂ Migrates done jobs) :
    (jobs.filter JobRow.isActive).map JobRow.activeKey =
      ((done.filter LegacyRow.isActive).map LegacyRow.tag).map fun tag => ("legacy", tag) := by
  induction h with
  | nil => rfl
  | @cons row job _ _ hjob _ ih =>
    have hactive : job.isActive = row.isActive := by
      rw [JobRow.isActive, hjob.status, LegacyRow.isActive]
    cases ha : row.isActive with
    | true => simp [hactive, ha, ih, JobRow.activeKey, hjob.app, hjob.tag]
    | false => simp [hactive, ha, ih]

theorem migrated_distinct (h : List.Forall₂ Migrates done jobs) :
    ActiveDistinct jobs ↔ ActiveTagsDistinct done := by
  have hinj : Function.Injective fun tag : String => ("legacy", tag) := by
    intro tag other he
    simpa using he
  rw [ActiveDistinct, ActiveTagsDistinct, migrated_keys h]
  exact List.nodup_map_iff hinj

theorem inOrder_perm (legacy : LegacyQueue) : legacy.inOrder.Perm legacy.rows :=
  List.mergeSort_perm _ _

theorem inOrder_distinct {legacy : LegacyQueue} :
    ActiveTagsDistinct legacy.inOrder ↔ ActiveTagsDistinct legacy.rows :=
  (((inOrder_perm legacy).filter _).map _).nodup_iff

end Rows

section Backfill

variable {n u : ℕ} {scanTime : String → Option String} {legacy : LegacyQueue}
  {done rest : List LegacyRow} {row : LegacyRow} {s : Migrating}

/-- Within the loop of the backfill: the rows so far are there, the index is, and the query
keeps its connection. -/
structure Backfilling (legacy : LegacyQueue) (done : List LegacyRow) (u : ℕ) (s : Migrating) :
    Prop where
  source : s.db.legacy = some legacy
  filled : Filled done s.db.rows
  indexed : s.db.Indexed
  inUse : s.inUse = u

theorem Backfilling.leftover (h : Backfilling legacy done u s) (hdone : done <+: legacy.inOrder) :
    Leftover legacy s.db :=
  ⟨h.source, h.indexed.distinct, done, hdone, h.filled⟩

theorem insertLegacy_rows {jobID : String} {scanned : ScannedRow} {db after : Database}
    (h : Database.onJobs (JobsTable.insertLegacy jobID scanned) db = .ok after)
    (hindexed : db.Indexed) : after.legacy = db.legacy ∧ after.Indexed ∧
      ∃ seq, after.rows = db.rows ++ [scanned.job jobID seq] ∧ ∀ job ∈ db.rows, job.seq < seq := by
  obtain ⟨table, htable, hindex⟩ := hindexed
  simp only [Database.onJobs, htable] at h
  cases hi : JobsTable.insertLegacy jobID scanned table with
  | error e => rw [hi] at h; cases h
  | ok changed =>
    rw [hi] at h
    cases h
    obtain ⟨hrows, hkept⟩ := withRows_ok hi
    refine ⟨rfl, ⟨changed, rfl, hkept.trans hindex⟩, table.nextSeq, ?_, ?_⟩
    · rw [rows_some htable, rows_some rfl, hrows]
    · intro job hm
      rw [rows_some htable] at hm
      exact Jobs.seq_lt_max hm

theorem Backfilling.insert {jobID : String} {scanned : ScannedRow} {db : Database}
    (h : Backfilling legacy done u s) (hscan : scanLegacy scanTime row = .ok scanned)
    (hdb : Database.onJobs (JobsTable.insertLegacy jobID scanned) s.db = .ok db) :
    Backfilling legacy (done ++ [row]) u { s with db := db } := by
  obtain ⟨hsource, hindexed, seq, hrows, hseq⟩ := insertLegacy_rows hdb h.indexed
  refine ⟨hsource.trans h.source, ?_, hindexed, h.inUse⟩
  change Filled _ db.rows
  rw [hrows]
  exact filled_concat h.filled ((scanLegacy_scans hscan).2 jobID seq) hseq

theorem always_scan {op : String} {J : Migrating → Prop} {result : Except SqlError ScannedRow}
    (h : J s) : (wrap op (pure result)).run.Always J
      (Prog.Ends (fun s' scanned => s' = s ∧ result = .ok scanned) fun _ _ => True) s := by
  refine always_wrap ⟨h, ?_⟩
  cases result with
  | error e => trivial
  | ok scanned => exact ⟨rfl, rfl⟩

theorem yields_scan {op : String} {scanned : ScannedRow} :
    (wrap op (pure (.ok scanned))).run.Yields Quiet
      (Prog.Ends (fun s' value => s' = s ∧ value = scanned) fun _ _ => False) s :=
  yields_wrap ⟨rfl, rfl⟩

theorem always_rowsNext {op : String} {J : Migrating → Prop} (h : J s) :
    (wrap op rowsNext).run.Always J (Prog.Ends (fun s' _ => s' = s) fun _ _ => True) s := by
  refine always_wrap (Prog.always_atomic h ?_)
  rintro ⟨fault, id⟩
  cases fault with
  | some text => exact ⟨h, trivial⟩
  | none => exact ⟨h, rfl⟩

theorem yields_rowsNext {op : String} :
    (wrap op rowsNext).run.Yields Quiet (Prog.Ends (fun s' _ => s' = s) fun _ _ => False) s := by
  refine yields_wrap (Prog.yields_atomic ?_)
  rintro ⟨fault, id⟩ hquiet
  cases hquiet.1
  rfl

theorem always_randomJobID {J : Migrating → Prop} (h : J s) :
    randomJobID.Always J (Prog.Ends (fun s' _ => s' = s) fun _ _ => True) s := by
  refine Prog.always_atomic h ?_
  rintro ⟨fault, id⟩
  cases fault with
  | some text => exact ⟨h, trivial⟩
  | none => exact ⟨h, rfl⟩

theorem yields_randomJobID :
    randomJobID.Yields Quiet
      (Prog.Ends (fun s' jobID => s' = s ∧ ∀ row ∈ s.db.rows, row.id ≠ jobID)
        fun _ _ => False) s := by
  refine Prog.yields_atomic ?_
  rintro ⟨fault, id⟩ hquiet
  cases hquiet.1
  exact ⟨rfl, hquiet.2⟩

/-- A backfill that ends without an error has copied all rows, has converted all their times, and
has had a second connection for them. -/
theorem always_backfill (h : Backfilling legacy done u s) (hsplit : done ++ rest = legacy.inOrder) :
    (backfill n scanTime rest).run.Always (fun s => Leftover legacy s.db)
      (Prog.Ends (fun s' _ => Backfilling legacy legacy.inOrder u s' ∧
        (∀ row ∈ rest, row.Scans scanTime) ∧ (rest ≠ [] → n = 0 ∨ u < n)) fun _ _ => True) s := by
  induction rest generalizing done s with
  | nil =>
    rw [List.append_nil] at hsplit
    refine (always_rowsNext (h.leftover (hsplit ▸ List.prefix_rfl))).mono ?_
    rintro s' (e | value) _ hs'
    · trivial
    · cases hs'
      exact ⟨hsplit ▸ h, by simp, by simp⟩
  | cons row rest ih =>
    have hleft : Leftover legacy s.db := h.leftover ⟨row :: rest, hsplit⟩
    have hnext : done ++ [row] ++ rest = legacy.inOrder := by
      rw [← hsplit]
      simp
    refine Prog.always_try (always_rowsNext hleft) ?_
    rintro s₁ _ _ rfl
    refine Prog.always_try (always_scan hleft) ?_
    rintro s₂ scanned _ ⟨rfl, hscan⟩
    refine Prog.always_try (always_randomJobID hleft) ?_
    rintro s₃ jobID _ rfl
    refine Prog.always_try (P := fun s' _ => Backfilling legacy (done ++ [row]) u s' ∧
      (n = 0 ∨ u < n)) (always_wrap (always_dbExec hleft ?_)) ?_
    · intro hfree db hdb
      have hinserted := h.insert hscan hdb
      have hconn : n = 0 ∨ u < n := by
        rw [connFree, h.inUse] at hfree
        simpa using hfree
      exact ⟨hinserted.leftover ⟨rest, hnext⟩, hinserted, hconn⟩
    · rintro s₄ _ _ ⟨hinserted, hconn⟩
      refine (ih hinserted hnext).mono ?_
      rintro s' (e | value) _ hend
      · trivial
      · obtain ⟨hfilled, hscans, -⟩ := hend
        refine ⟨hfilled, ?_, fun _ => hconn⟩
        rintro other (_ | ⟨_, hm⟩)
        · exact (scanLegacy_scans hscan).1
        · exact hscans other hm

/-- An INSERT with a free id, for a row whose tag is no active one, is accepted. -/
theorem insertLegacy_ok {jobID : String} {scanned : ScannedRow} (h : Backfilling legacy done u s)
    (hscan : scanLegacy scanTime row = .ok scanned) (hid : ∀ job ∈ s.db.rows, job.id ≠ jobID)
    (hdistinct : ActiveTagsDistinct (done ++ [row])) :
    ∃ db, Database.onJobs (JobsTable.insertLegacy jobID scanned) s.db = .ok db := by
  obtain ⟨table, htable, -⟩ := h.indexed
  have hrows := rows_some htable
  have hfilled := h.filled
  rw [hrows] at hid hfilled
  have hmigrates := (scanLegacy_scans hscan).2 jobID table.nextSeq
  refine onJobs_ok htable (withRows_accepts ?_ ?_)
  · rw [List.map_append, List.nodup_append]
    refine ⟨table.primaryKey, List.nodup_singleton _, ?_⟩
    intro taken htaken last hlast
    obtain ⟨job, hm, rfl⟩ := List.mem_map.mp htaken
    rw [List.map_singleton, List.mem_singleton] at hlast
    rw [hlast]
    exact hid job hm
  · exact (migrated_distinct (List.rel_append hfilled.rows (.cons hmigrates .nil))).mpr hdistinct

theorem yields_backfill (hscans : ∀ row ∈ rest, row.Scans scanTime)
    (hdistinct : ActiveTagsDistinct legacy.inOrder) (hconn : rest ≠ [] → n = 0 ∨ u < n)
    (h : Backfilling legacy done u s) (hsplit : done ++ rest = legacy.inOrder) :
    (backfill n scanTime rest).run.Yields Quiet
      (Prog.Ends (fun _ _ => True) fun _ _ => False) s := by
  induction rest generalizing done s with
  | nil =>
    refine yields_rowsNext.mono ?_
    rintro s' (e | value) hend
    · exact hend
    · trivial
  | cons row rest ih =>
    have hnext : done ++ [row] ++ rest = legacy.inOrder := by
      rw [← hsplit]
      simp
    have hfree : connFree n s = true := by
      rw [connFree, h.inUse]
      simpa using hconn (List.cons_ne_nil _ _)
    obtain ⟨scanned, hscan⟩ := scans_scanLegacy (hscans row List.mem_cons_self)
    have hdone : ActiveTagsDistinct (done ++ [row]) := by
      rw [← hnext] at hdistinct
      exact hdistinct.sublist (((List.sublist_append_left _ _).filter _).map _)
    refine Prog.yields_try yields_rowsNext ?_
    rintro s₁ _ rfl
    rw [hscan]
    refine Prog.yields_try yields_scan ?_
    rintro s₂ value ⟨rfl, rfl⟩
    refine Prog.yields_try yields_randomJobID ?_
    rintro s₃ jobID ⟨rfl, hid⟩
    obtain ⟨after, hafter⟩ := insertLegacy_ok h hscan hid hdone
    refine Prog.yields_try (P := fun s' _ => Backfilling legacy (done ++ [row]) u s')
      (yields_wrap (yields_dbExec hfree ?_ ?_)) ?_
    · intro k db _ hdb
      exact h.insert hscan hdb
    · intro k e _ he
      rw [hafter] at he
      cases he
    · intro s₄ _ hinserted
      have hscans' : ∀ other ∈ rest, other.Scans scanTime :=
        fun other hm => hscans other (List.mem_cons_of_mem _ hm)
      exact ih hscans' (fun _ => hconn (List.cons_ne_nil _ _)) hinserted hnext

/-- What a `Migrate` without an error says of the rows that it has copied. -/
structure Copied (n : ℕ) (scanTime : String → Option String) (legacy : LegacyQueue)
    (db : Database) : Prop where
  filled : Filled legacy.inOrder db.rows
  indexed : db.Indexed
  scans : ∀ row ∈ legacy.inOrder, row.Scans scanTime
  conns : legacy.inOrder ≠ [] → n = 0 ∨ 1 < n

theorem always_backfillLegacy (h : Backfilling legacy [] 0 s) :
    (backfillLegacy n scanTime).run.Always (fun s => Leftover legacy s.db)
      (Prog.Ends (fun s' _ => Copied n scanTime legacy s'.db) fun _ _ => True) s := by
  have hleft : Leftover legacy s.db := h.leftover (List.nil_prefix)
  have hquery : (dbQuery n Database.legacyRows).Always (fun s => Leftover legacy s.db)
      (Prog.Ends (fun s' rows => Backfilling legacy [] 1 s' ∧ rows = legacy.inOrder)
        fun _ _ => True) s := by
    refine Prog.always_await hleft ?_
    rintro ⟨fault, id⟩ -
    cases fault with
    | some text => exact ⟨hleft, trivial⟩
    | none =>
      simp only [Database.legacyRows, h.source]
      exact ⟨hleft, ⟨h.source, h.filled, h.indexed, by simp [h.inUse]⟩, rfl⟩
  refine Prog.always_try (always_wrap hquery) ?_
  rintro s₁ rows _ ⟨hopen, rfl⟩
  refine Prog.always_bind (always_backfill hopen (List.nil_append _)) ?_
  intro s₂ result hleft₂ hend
  refine Prog.always_bind (P := fun s' _ => s'.db = s₂.db)
    (Prog.always_atomic hleft₂ fun _ => ⟨hleft₂, rfl⟩) ?_
  intro s₃ _ hleft₃ hsame
  refine ⟨hleft₃, ?_⟩
  cases result with
  | error e => trivial
  | ok value =>
    obtain ⟨hcopied, hscans, hconns⟩ := hend
    refine ⟨?_, ?_, hscans, hconns⟩
    · rw [hsame]
      exact hcopied.filled
    · rw [hsame]
      exact hcopied.indexed

theorem yields_backfillLegacy (h : Backfilling legacy [] 0 s)
    (hscans : ∀ row ∈ legacy.inOrder, row.Scans scanTime)
    (hdistinct : ActiveTagsDistinct legacy.inOrder)
    (hconns : legacy.inOrder ≠ [] → n = 0 ∨ 1 < n) :
    (backfillLegacy n scanTime).run.Yields Quiet
      (Prog.Ends (fun _ _ => True) fun _ _ => False) s := by
  have hquery : (dbQuery n Database.legacyRows).Yields Quiet
      (Prog.Ends (fun s' rows => Backfilling legacy [] 1 s' ∧ rows = legacy.inOrder)
        fun _ _ => False) s := by
    refine Prog.yields_await ?_
    rintro ⟨fault, id⟩ hquiet
    cases hquiet.1
    simp only [Database.legacyRows, h.source]
    refine ⟨?_, ⟨h.source, h.filled, h.indexed, by simp [h.inUse]⟩, rfl⟩
    rw [connFree, h.inUse]
    simp only [Bool.or_eq_true, beq_iff_eq, decide_eq_true_eq]
    omega
  refine Prog.yields_try (yields_wrap hquery) ?_
  rintro s₁ rows ⟨hopen, rfl⟩
  refine Prog.yields_bind (yields_backfill hscans hdistinct hconns hopen (List.nil_append _)) ?_
  intro s₂ result hend
  exact Prog.yields_bind (P := fun _ _ => True) (Prog.yields_atomic fun _ _ => trivial)
    fun _ _ _ => hend

end Backfill

section Migrate

variable {n : ℕ} {scanTime : String → Option String} {legacy : LegacyQueue} {db : Database}

/-- A database that no release with `deploy_jobs` has opened. -/
def Database.old (legacy : LegacyQueue) : Database := ⟨some legacy, none⟩

/-- Where an old database may stand after any number of starts of the server, each of which was
cut off at some action of `Migrate`, or came to its end. -/
inductive Restarts (n : ℕ) (scanTime : String → Option String) (legacy : LegacyQueue) :
    Database → Prop
  | old : Restarts n scanTime legacy (.old legacy)
  | start {db : Database} {p : Prog Migrating Choice Empty (Except MigrateError Unit)}
      {s : Migrating} : Restarts n scanTime legacy db →
      (Migrate n scanTime).run.Runs ⟨db, 0⟩ p s → Restarts n scanTime legacy s.db

/-- One job of the app `legacy` for each legacy row, with `seq` in the order of their ids. -/
def Lossless (legacy : LegacyQueue) (db : Database) : Prop := Filled legacy.inOrder db.rows

theorem schema_backfilling {s : Migrating} {copy : Bool} (h : Schema ⟨db, 0⟩ s copy)
    (hleft : Leftover legacy db) (hnone : db.jobs = none) : Backfilling legacy [] 0 s := by
  have hrows : s.db.rows = [] := by
    rw [h.rows]
    simp [Database.rows, hnone]
  exact ⟨h.legacy.trans hleft.source, hrows ▸ ⟨.nil, .nil⟩, h.indexed, h.inUse⟩

/-- A `Migrate` copies all rows if it finds no `deploy_jobs`, and none if it does. -/
theorem always_migrate (hleft : Leftover legacy db) :
    (Migrate n scanTime).run.Always (fun s => Leftover legacy s.db)
      (Prog.Ends (fun s' _ => s'.db.Indexed ∧
        ((db.jobs = none ∧ Copied n scanTime legacy s'.db) ∨
          (db.jobs ≠ none ∧ s'.db.rows = db.rows))) fun _ _ => True) ⟨db, 0⟩ := by
  have hschema : (migrateSchema n).run.Always (fun s => Leftover legacy s.db)
      (Prog.Ends (fun s copy => Schema ⟨db, 0⟩ s copy) fun _ _ => True) ⟨db, 0⟩ := by
    refine (always_migrateSchema hleft.distinct).imp ?_ fun _ _ _ h => h
    intro s hs
    exact ⟨hs.legacy.trans hleft.source, hs.rows ▸ hleft.distinct, hs.rows ▸ hleft.rows⟩
  refine Prog.always_try hschema ?_
  intro s copy hleft' hs
  cases hjobs : db.jobs with
  | none =>
    have hcopy : copy = true := by
      rw [hs.copies]
      simp [hleft.source, hjobs]
    subst hcopy
    refine (always_backfillLegacy (schema_backfilling hs hleft hjobs)).mono ?_
    rintro s' (e | value) _ hend
    · trivial
    · exact ⟨hend.indexed, Or.inl ⟨rfl, hend⟩⟩
  | some table =>
    have hcopy : copy = false := by
      rw [hs.copies]
      simp [hjobs]
    subst hcopy
    exact ⟨hleft', hs.indexed, Or.inr ⟨by simp, hs.rows⟩⟩

theorem old_leftover : Leftover legacy (.old legacy) :=
  ⟨rfl, List.nodup_nil, [], List.nil_prefix, .nil, .nil⟩

theorem restarts_leftover (h : Restarts n scanTime legacy db) : Leftover legacy db := by
  induction h with
  | old => exact old_leftover
  | start _ runs ih => exact (always_migrate ih).cut runs

theorem lossless_iff {s : Migrating} (h : Restarts n scanTime legacy db)
    (runs : (Migrate n scanTime).run.Runs ⟨db, 0⟩ (.ret (.ok ())) s) :
    Lossless legacy s.db ↔ db.jobs = none ∨ Lossless legacy db := by
  rcases (always_migrate (restarts_leftover h)).returned runs with
    ⟨-, ⟨hnone, hcopied⟩ | ⟨hsome, hrows⟩⟩
  · exact ⟨fun _ => Or.inl hnone, fun _ => hcopied.filled⟩
  · unfold Lossless
    rw [hrows]
    simp [hsome]

/-- What it takes for the rows of a first start to be copied. -/
theorem yields_migrate (hscans : ∀ row ∈ legacy.inOrder, row.Scans scanTime)
    (hdistinct : ActiveTagsDistinct legacy.inOrder)
    (hconns : legacy.inOrder ≠ [] → n = 0 ∨ 1 < n) :
    (Migrate n scanTime).run.Yields Quiet (Prog.Ends (fun _ _ => True) fun _ _ => False)
      ⟨.old legacy, 0⟩ := by
  have hfree : connFree n ⟨.old legacy, 0⟩ = true := by
    simp only [connFree, Bool.or_eq_true, beq_iff_eq, decide_eq_true_eq]
    omega
  refine Prog.yields_try (yields_migrateSchema old_leftover.distinct hfree) ?_
  intro s copy hs
  have hcopy : copy = true := hs.copies
  subst hcopy
  exact yields_backfillLegacy (schema_backfilling hs old_leftover rfl) hscans hdistinct hconns

/-- A start that finds `deploy_jobs` returns without an error, whatever is missing in it. -/
theorem yields_migrate_again (hleft : Leftover legacy db) (hjobs : db.jobs ≠ none) :
    (Migrate n scanTime).run.Yields Quiet (fun _ result => result = .ok ()) ⟨db, 0⟩ := by
  have hfree : connFree n ⟨db, 0⟩ = true := by
    simp only [connFree, Bool.or_eq_true, beq_iff_eq, decide_eq_true_eq]
    omega
  have hyields : (Migrate n scanTime).run.Yields Quiet
      (Prog.Ends (fun _ _ => True) fun _ _ => False) ⟨db, 0⟩ := by
    refine Prog.yields_try (yields_migrateSchema hleft.distinct hfree) ?_
    intro s copy hs
    have hcopy : copy = false := by
      rw [hs.copies]
      simp [Option.isSome_iff_ne_none.mpr hjobs]
    subst hcopy
    trivial
  refine hyields.mono ?_
  rintro s (e | value) hend
  · exact hend.elim
  · rfl

theorem migrate_returns_iff :
    (Migrate n scanTime).run.Yields Quiet (fun _ result => result = .ok ()) ⟨.old legacy, 0⟩ ↔
      legacy.rows = [] ∨ n ≠ 1 ∧ (∀ row ∈ legacy.rows, row.Scans scanTime) ∧
        ActiveTagsDistinct legacy.rows := by
  have hperm := inOrder_perm legacy
  have hempty : legacy.inOrder = [] ↔ legacy.rows = [] := by
    rw [← List.length_eq_zero_iff, hperm.length_eq, List.length_eq_zero_iff]
  constructor
  · intro h
    obtain ⟨s, result, runs, rfl⟩ := h.runs quiet_exists
    rcases (always_migrate old_leftover).returned runs with
      ⟨-, ⟨-, hcopied⟩ | ⟨hsome, -⟩⟩
    · by_cases hrows : legacy.rows = []
      · exact Or.inl hrows
      · refine Or.inr ⟨?_, ?_, ?_⟩
        · have hconns := hcopied.conns (fun he => hrows (hempty.mp he))
          omega
        · exact fun row hm => hcopied.scans row (hperm.mem_iff.mpr hm)
        · rw [← inOrder_distinct]
          exact (migrated_distinct hcopied.filled.rows).mp hcopied.indexed.distinct
    · exact absurd rfl hsome
  · intro h
    have hyields : (Migrate n scanTime).run.Yields Quiet
        (Prog.Ends (fun _ _ => True) fun _ _ => False) ⟨.old legacy, 0⟩ := by
      rcases h with hrows | ⟨hconns, hscans, hdistinct⟩
      · have hnone := hempty.mpr hrows
        refine yields_migrate ?_ ?_ fun hne => absurd hnone hne
        · rw [hnone]
          simp
        · rw [hnone]
          exact List.nodup_nil
      · refine yields_migrate ?_ (inOrder_distinct.mpr hdistinct) fun _ => by omega
        exact fun row hm => hscans row (hperm.mem_iff.mp hm)
    refine hyields.mono ?_
    rintro s (e | value) hend
    · exact hend.elim
    · rfl

end Migrate

/-- The migration of a legacy queue, over the pools and the drivers that `Migrate` runs on: when
it returns without an error as long as nothing fails, and when a `Migrate` that follows any
number of interrupted ones leaves every row. -/
theorem migration_iff (maxOpenConns : ℕ) (scanTime : String → Option String)
    (legacy : LegacyQueue) :
    ((Migrate maxOpenConns scanTime).run.Yields Quiet (fun _ result => result = .ok ())
        ⟨.old legacy, 0⟩ ↔
      legacy.rows = [] ∨ maxOpenConns ≠ 1 ∧ (∀ row ∈ legacy.rows, row.Scans scanTime) ∧
        ActiveTagsDistinct legacy.rows) ∧
    ∀ db s, Restarts maxOpenConns scanTime legacy db →
      (Migrate maxOpenConns scanTime).run.Runs ⟨db, 0⟩ (.ret (.ok ())) s →
      (Lossless legacy s.db ↔ db.jobs = none ∨ Lossless legacy db) :=
  ⟨migrate_returns_iff, fun _ _ h runs => lossless_iff h runs⟩

def finishedRow : LegacyRow := ⟨1, "v0.1", "succeeded", none, some "2024-05-01 10:00:00",
  some "2024-05-01 10:00:00"⟩

def oneFinished : LegacyQueue := ⟨[finishedRow], by simp⟩

/-- With a pool that has a second connection the row is copied. -/
theorem migration_iff_oneFinished :
    (Migrate 0 some).run.Yields Quiet (fun _ result => result = .ok ()) ⟨.old oneFinished, 0⟩ ∧
    ∃ s, (Migrate 0 some).run.Runs ⟨.old oneFinished, 0⟩ (.ret (.ok ())) s ∧
      Lossless oneFinished s.db := by
  have hiff := migration_iff 0 some oneFinished
  have hyields : (Migrate 0 some).run.Yields Quiet (fun _ result => result = .ok ())
      ⟨.old oneFinished, 0⟩ := by
    refine hiff.1.mpr (Or.inr ⟨by decide, ?_, List.nodup_nil⟩)
    intro row hm
    rw [List.mem_singleton.mp hm]
    exact ⟨rfl, rfl⟩
  obtain ⟨s, result, runs, rfl⟩ := hyields.runs quiet_exists
  exact ⟨hyields, s, runs, (hiff.2 _ s .old runs).mpr (Or.inl rfl)⟩

/-- With the pool of one connection that the server opens, the first start waits for ever in
front of the first row, and the second one copies nothing. -/
theorem oneFinished_lost :
    ¬ (Migrate 1 some).run.Yields Quiet (fun _ result => result = .ok ()) ⟨.old oneFinished, 0⟩ ∧
    ∃ db s, Restarts 1 some oneFinished db ∧
      (Migrate 1 some).run.Runs ⟨db, 0⟩ (.ret (.ok ())) s ∧ ¬ Lossless oneFinished s.db := by
  have hcut : ∃ p, (Migrate 1 some).run.Runs ⟨.old oneFinished, 0⟩ p
      ⟨⟨some oneFinished, some .created⟩, 0⟩ :=
    ⟨_, .act ⟨none, ""⟩ rfl (.act ⟨none, ""⟩ rfl (.act ⟨none, ""⟩ rfl (.act ⟨none, ""⟩ rfl
      (.act ⟨none, ""⟩ rfl .here))))⟩
  obtain ⟨p, hcut⟩ := hcut
  have hrestart : Restarts 1 some oneFinished ⟨some oneFinished, some .created⟩ :=
    Restarts.old.start hcut
  have hyields : (Migrate 1 some).run.Yields Quiet (fun _ result => result = .ok ())
      ⟨⟨some oneFinished, some .created⟩, 0⟩ :=
    yields_migrate_again (restarts_leftover hrestart) (by simp)
  obtain ⟨s, result, runs, rfl⟩ := hyields.runs quiet_exists
  refine ⟨?_, _, s, hrestart, runs, ?_⟩
  · rw [migrate_returns_iff]
    simp [oneFinished]
  · rw [lossless_iff hrestart runs]
    rintro (hnone | hfilled)
    · cases hnone
    · have hlength := hfilled.rows.length_eq
      simp [LegacyQueue.inOrder, oneFinished, Database.rows, JobsTable.created] at hlength

end AutoDeploy
