import AutoDeploy.Migration
import Mathlib.Data.Fintype.EquivFin

namespace AutoDeploy

open Interleaving

def ActiveDistinct (rows : List JobRow) : Prop :=
  ((rows.filter JobRow.isActive).map JobRow.activeKey).Nodup

/-- The rows of `deploy_jobs`, none if there is no such table. -/
def Database.rows (db : Database) : List JobRow := (db.jobs.map JobsTable.rows).getD []

def Database.Indexed (db : Database) : Prop :=
  ∃ table, db.jobs = some table ∧ table.activeIndex = true

/-- A job as the backfill writes it for a legacy row. -/
structure Migrates (row : LegacyRow) (job : JobRow) : Prop where
  app : job.appID = "legacy"
  tag : job.tag = row.tag
  status : job.status = .ofText row.status
  errorMsg : job.errorMsg = if row.errorMsg.getD "" = "" then none else row.errorMsg

/-- One job for each of these rows, with `seq` in their order, and no other jobs. -/
structure Filled (done : List LegacyRow) (jobs : List JobRow) : Prop where
  rows : List.Forall₂ Migrates done jobs
  seqs : jobs.Pairwise fun job later => job.seq < later.seq

/-- Nothing but what a migration of this queue may have left behind. -/
structure Leftover (legacy : LegacyQueue) (db : Database) : Prop where
  source : db.legacy = some legacy
  distinct : ActiveDistinct db.rows
  rows : ∃ done, done <+: legacy.inOrder ∧ Filled done db.rows

theorem rows_some {db : Database} {table : JobsTable} (h : db.jobs = some table) :
    db.rows = table.rows := by
  rw [Database.rows, h]
  rfl

theorem Database.Indexed.distinct {db : Database} (h : db.Indexed) : ActiveDistinct db.rows := by
  obtain ⟨table, htable, hindex⟩ := h
  rw [rows_some htable]
  exact table.activeUnique hindex

section Tables

variable {table after : JobsTable} {rows : List JobRow}

theorem withRows_ok (h : table.withRows rows = .ok after) :
    after.rows = rows ∧ after.activeIndex = table.activeIndex := by
  unfold JobsTable.withRows at h
  split at h
  next =>
    split at h
    next => cases h; exact ⟨rfl, rfl⟩
    next => cases h
  next => cases h

theorem withRows_accepts (hids : (rows.map JobRow.id).Nodup) (hactive : ActiveDistinct rows) :
    ∃ after, table.withRows rows = .ok after := by
  have hindex : table.activeIndex = true →
      ((rows.filter JobRow.isActive).map JobRow.activeKey).Nodup := fun _ => hactive
  unfold JobsTable.withRows
  rw [dif_pos hids, dif_pos hindex]
  exact ⟨_, rfl⟩

/-- Where no two active rows share a key the migration has nothing to demote. -/
theorem demoted_none (h : ActiveDistinct rows) :
    ∀ row ∈ rows, JobsTable.demoted rows row = false := by
  intro row hm
  by_cases ha : row.isActive = true
  · have hearliest : JobsTable.earliestActive rows row.activeKey = some row := by
      cases he : JobsTable.earliestActive rows row.activeKey with
      | none =>
        have hempty := List.argmin_eq_none.mp he
        have hrow : row ∈ rows.filter fun other =>
            other.isActive && other.activeKey == row.activeKey := by
          simp [hm, ha]
        rw [hempty] at hrow
        cases hrow
      | some other =>
        have hother := List.argmin_mem he
        simp only [List.mem_filter, Bool.and_eq_true, beq_iff_eq] at hother
        have hsame := List.inj_on_of_nodup_map h (List.mem_filter.mpr ⟨hother.1, hother.2.1⟩)
          (List.mem_filter.mpr ⟨hm, ha⟩) hother.2.2
        rw [hsame]
    simp [JobsTable.demoted, hearliest]
  · simp [JobsTable.demoted, ha]

theorem dedupActive_rows (h : ActiveDistinct table.rows) :
    (table.rows.map fun row => if JobsTable.demoted table.rows row then
      { row with status := .failed, errorMsg := some JobsTable.supersededMsg } else row) =
      table.rows := by
  have hsame : ∀ row ∈ table.rows, (if JobsTable.demoted table.rows row then
      { row with status := .failed, errorMsg := some JobsTable.supersededMsg } else row) = row := by
    intro row hm
    simp [demoted_none h row hm]
  exact (List.map_congr_left hsame).trans (List.map_id table.rows)

end Tables

/-- A statement that leaves the legacy rows, and the jobs of a database as long as no two active
ones collide. -/
def Keeping (statement : Database → Except SqlError Database) : Prop :=
  ∀ db after, ActiveDistinct db.rows → statement db = .ok after →
    after.legacy = db.legacy ∧ after.rows = db.rows

theorem keeping_onJobs {statement : JobsTable → Except SqlError JobsTable}
    (h : ∀ table after, ActiveDistinct table.rows → statement table = .ok after →
      after.rows = table.rows) : Keeping (Database.onJobs statement) := by
  intro db after hdistinct hafter
  unfold Database.onJobs at hafter
  split at hafter
  next => cases hafter
  next table hjobs =>
    cases hs : statement table with
    | error e => rw [hs] at hafter; cases hafter
    | ok changed =>
      rw [hs] at hafter
      cases hafter
      rw [rows_some hjobs] at hdistinct ⊢
      exact ⟨rfl, h table changed hdistinct hs⟩

theorem keeping_ok : Keeping .ok := by
  rintro db after - ⟨⟩
  exact ⟨rfl, rfl⟩

theorem keeping_createJobs : Keeping Database.createJobs := by
  rintro ⟨legacy, jobs⟩ after - ⟨⟩
  cases jobs with
  | none => exact ⟨rfl, rfl⟩
  | some table => exact ⟨rfl, rfl⟩

theorem keeping_addColumn (column : String) :
    Keeping (Database.onJobs (JobsTable.addColumn column)) := by
  refine keeping_onJobs ?_
  intro table after _ h
  unfold JobsTable.addColumn at h
  split at h
  next => cases h
  next => cases h; rfl

theorem keeping_dedupActive : Keeping (Database.onJobs JobsTable.dedupActive) := by
  refine keeping_onJobs ?_
  intro table after hdistinct h
  rw [(withRows_ok h).1]
  exact dedupActive_rows hdistinct

theorem keeping_createActiveUnique : Keeping (Database.onJobs JobsTable.createActiveUnique) := by
  refine keeping_onJobs ?_
  intro table after _ h
  unfold JobsTable.createActiveUnique at h
  split at h
  next => cases h; rfl
  next => cases h

theorem createActiveUnique_indexed {db after : Database}
    (h : Database.onJobs JobsTable.createActiveUnique db = .ok after) : after.Indexed := by
  unfold Database.onJobs at h
  split at h
  next => cases h
  next table _ =>
    unfold JobsTable.createActiveUnique at h
    split at h
    next => cases h; exact ⟨_, rfl, rfl⟩
    next => cases h

/-- What the schema statements keep of the state in which `Migrate` starts. -/
structure SchemaKept (start s : Migrating) : Prop where
  legacy : s.db.legacy = start.db.legacy
  rows : s.db.rows = start.db.rows
  inUse : s.inUse = start.inUse

/-- Nothing outside fails, and the random source gives an id that is not taken. -/
def Quiet (s : Migrating) (k : Choice) : Prop :=
  k.fault = none ∧ ∀ row ∈ s.db.rows, row.id ≠ k.id

theorem quiet_exists (s : Migrating) : ∃ k, Quiet s k := by
  obtain ⟨id, hid⟩ := Infinite.exists_notMem_finset (s.db.rows.map JobRow.id).toFinset
  refine ⟨⟨none, id⟩, rfl, ?_⟩
  rintro row hm rfl
  exact hid (List.mem_toFinset.mpr (List.mem_map_of_mem hm))

section Statements

variable {n : ℕ} {op : String} {J : Migrating → Prop} {s start : Migrating}
  {statement : Database → Except SqlError Database}

theorem always_wrap {α : Type} {p : Prog Migrating Choice Empty (Except SqlError α)}
    {P : Migrating → α → Prop} (h : p.Always J (Prog.Ends P fun _ _ => True) s) :
    (wrap op p).run.Always J (Prog.Ends P fun _ _ => True) s := by
  refine Prog.always_bind h ?_
  intro s result hs hresult
  cases result with
  | ok value => exact ⟨hs, hresult⟩
  | error e => exact ⟨hs, trivial⟩

theorem yields_wrap {α : Type} {p : Prog Migrating Choice Empty (Except SqlError α)}
    {P : Migrating → α → Prop} (h : p.Yields Quiet (Prog.Ends P fun _ _ => False) s) :
    (wrap op p).run.Yields Quiet (Prog.Ends P fun _ _ => False) s := by
  refine Prog.yields_bind h ?_
  intro s result hresult
  cases result with
  | ok value => exact hresult
  | error e => exact hresult

theorem always_dbExec {P : Migrating → Unit → Prop} (hs : J s)
    (h : connFree n s = true → ∀ db, statement s.db = .ok db →
      J { s with db := db } ∧ P { s with db := db } ()) :
    (dbExec n statement).Always J (Prog.Ends P fun _ _ => True) s := by
  refine Prog.always_await hs ?_
  rintro ⟨fault, id⟩ hfree
  cases fault with
  | some text => exact ⟨hs, trivial⟩
  | none =>
    dsimp only
    cases hdb : statement s.db with
    | error e => exact ⟨hs, trivial⟩
    | ok db => exact h hfree db hdb

theorem yields_dbExec {Q : Migrating → Except SqlError Unit → Prop} (hfree : connFree n s = true)
    (hok : ∀ k db, Quiet s k → statement s.db = .ok db → Q { s with db := db } (.ok ()))
    (herror : ∀ k e, Quiet s k → statement s.db = .error e → Q s (.error e)) :
    (dbExec n statement).Yields Quiet Q s := by
  refine Prog.yields_await ?_
  rintro ⟨fault, id⟩ hquiet
  refine ⟨hfree, ?_⟩
  cases hquiet.1
  dsimp only
  cases hdb : statement s.db with
  | error e => exact herror _ e hquiet hdb
  | ok db => exact hok _ db hquiet hdb

theorem always_dbQueryRow {α : Type} {select : Database → α} (hs : J s) :
    (dbQueryRow n select).Always J
      (Prog.Ends (fun s' value => s' = s ∧ value = select s.db) fun _ _ => True) s := by
  refine Prog.always_await hs ?_
  rintro ⟨fault, id⟩ -
  cases fault with
  | some text => exact ⟨hs, trivial⟩
  | none => exact ⟨hs, rfl, rfl⟩

theorem yields_dbQueryRow {α : Type} {select : Database → α} (hfree : connFree n s = true) :
    (dbQueryRow n select).Yields Quiet
      (Prog.Ends (fun s' value => s' = s ∧ value = select s.db) fun _ _ => False) s := by
  refine Prog.yields_await ?_
  rintro ⟨fault, id⟩ hquiet
  cases hquiet.1
  exact ⟨hfree, rfl, rfl⟩

theorem SchemaKept.step {db : Database} (h : SchemaKept start s) (hkeeping : Keeping statement)
    (hdistinct : ActiveDistinct start.db.rows) (hdb : statement s.db = .ok db) :
    SchemaKept start { s with db := db } := by
  obtain ⟨hlegacy, hrows⟩ := hkeeping s.db db (h.rows ▸ hdistinct) hdb
  exact ⟨hlegacy.trans h.legacy, hrows.trans h.rows, h.inUse⟩

theorem always_keeping (hkeeping : Keeping statement) (hdistinct : ActiveDistinct start.db.rows)
    (h : SchemaKept start s) :
    (wrap op (dbExec n statement)).run.Always (SchemaKept start)
      (Prog.Ends (fun _ _ => True) fun _ _ => True) s :=
  always_wrap (always_dbExec h fun _ _ hdb => ⟨h.step hkeeping hdistinct hdb, trivial⟩)

theorem yields_keeping (hkeeping : Keeping statement) (hdistinct : ActiveDistinct start.db.rows)
    (hfree : connFree n start = true) (h : SchemaKept start s)
    (hok : ∃ db, statement s.db = .ok db) :
    (wrap op (dbExec n statement)).run.Yields Quiet
      (Prog.Ends (fun s' _ => SchemaKept start s' ∧ statement s.db = .ok s'.db)
        fun _ _ => False) s := by
  have hfree' : connFree n s = true := by
    rw [← hfree, connFree, connFree, h.inUse]
  obtain ⟨after, hafter⟩ := hok
  refine yields_wrap (yields_dbExec hfree' ?_ ?_)
  · intro k db _ hdb
    exact ⟨h.step hkeeping hdistinct hdb, hdb⟩
  · intro k e _ he
    rw [hafter] at he
    cases he

end Statements

section Schema

variable {n : ℕ} {s start : Migrating}

/-- What holds when the schema statements are done. -/
structure Schema (start s : Migrating) (copy : Bool) : Prop extends SchemaKept start s where
  indexed : s.db.Indexed
  copies : copy = (start.db.legacy.isSome && !start.db.jobs.isSome)

theorem always_addColumns (hdistinct : ActiveDistinct start.db.rows) (columns : List String)
    (h : SchemaKept start s) :
    (addColumns n columns).run.Always (SchemaKept start)
      (Prog.Ends (fun _ _ => True) fun _ _ => True) s := by
  induction columns generalizing s with
  | nil => exact ⟨h, trivial⟩
  | cons column rest ih =>
    have hadd : (dbExec n (Database.onJobs (JobsTable.addColumn column))).Always (SchemaKept start)
        (Prog.Ends (fun _ _ => True) fun _ _ => True) s :=
      always_dbExec h fun _ _ hdb => ⟨h.step (keeping_addColumn column) hdistinct hdb, trivial⟩
    refine Prog.always_try (Prog.always_lift hadd) ?_
    intro s added hs _
    cases added with
    | ok value => exact ih hs
    | error e =>
      cases he : isDuplicateColumn e with
      | true => simpa [he] using ih hs
      | false => simpa [he] using ⟨hs, trivial⟩

theorem addColumn_duplicate {column : String} {table : JobsTable} (h : column ∈ table.columns) :
    ∃ e, JobsTable.addColumn column table = .error e ∧ isDuplicateColumn e = true := by
  unfold JobsTable.addColumn
  rw [if_pos h]
  refine ⟨_, rfl, ?_⟩
  simp only [isDuplicateColumn, GoStrings.contains, decide_eq_true_eq, String.toList_append]
  refine ⟨"SQL logic error: ".toList, " name: ".toList ++ (column.toList ++ " (1)".toList), ?_⟩
  simp

theorem onJobs_some {statement : JobsTable → Except SqlError JobsTable} {db after : Database}
    (h : Database.onJobs statement db = .ok after) : ∃ table, after.jobs = some table := by
  unfold Database.onJobs at h
  split at h
  next => cases h
  next table _ =>
    cases hs : statement table with
    | error e => rw [hs] at h; cases h
    | ok changed => rw [hs] at h; cases h; exact ⟨changed, rfl⟩

theorem onJobs_ok {statement : JobsTable → Except SqlError JobsTable} {db : Database}
    {table : JobsTable} (hjobs : db.jobs = some table)
    (h : ∃ changed, statement table = .ok changed) :
    ∃ after, Database.onJobs statement db = .ok after := by
  obtain ⟨changed, hchanged⟩ := h
  refine ⟨{ db with jobs := some changed }, ?_⟩
  simp only [Database.onJobs, hjobs, hchanged]
  rfl

theorem yields_addColumns (hdistinct : ActiveDistinct start.db.rows)
    (hfree : connFree n start = true) (columns : List String) (h : SchemaKept start s)
    (hjobs : ∃ table, s.db.jobs = some table) :
    (addColumns n columns).run.Yields Quiet
      (Prog.Ends (fun s' _ => SchemaKept start s' ∧ ∃ table, s'.db.jobs = some table)
        fun _ _ => False) s := by
  induction columns generalizing s with
  | nil => exact ⟨h, hjobs⟩
  | cons column rest ih =>
    obtain ⟨table, htable⟩ := hjobs
    have hfree' : connFree n s = true := by
      rw [← hfree, connFree, connFree, h.inUse]
    have hadd : (dbExec n (Database.onJobs (JobsTable.addColumn column))).Yields Quiet
        (fun s' added => (SchemaKept start s' ∧ ∃ table, s'.db.jobs = some table) ∧
          ∀ e, added = .error e → isDuplicateColumn e = true) s := by
      refine yields_dbExec hfree' ?_ ?_
      · intro k db _ hdb
        exact ⟨⟨h.step (keeping_addColumn column) hdistinct hdb, onJobs_some hdb⟩, by simp⟩
      · intro k e _ he
        refine ⟨⟨h, table, htable⟩, ?_⟩
        rintro other ⟨⟩
        simp only [Database.onJobs, htable] at he
        by_cases hm : column ∈ table.columns
        · obtain ⟨e', he', hduplicate⟩ := addColumn_duplicate hm
          rw [he'] at he
          cases he
          exact hduplicate
        · simp only [JobsTable.addColumn, hm, ↓reduceIte] at he
          cases he
    refine Prog.yields_try (Prog.yields_lift hadd) ?_
    rintro s added ⟨⟨hs, hjobs⟩, hduplicate⟩
    cases added with
    | ok value => exact ih hs hjobs
    | error e => simpa [hduplicate e rfl] using ih hs hjobs

theorem always_pragma {op : String} (h : s = start) :
    (wrap op (dbExec n .ok)).run.Always (SchemaKept start)
      (Prog.Ends (fun s' _ => s' = start) fun _ _ => True) s := by
  subst h
  refine always_wrap (always_dbExec ⟨rfl, rfl, rfl⟩ ?_)
  rintro - db ⟨⟩
  exact ⟨⟨rfl, rfl, rfl⟩, rfl⟩

theorem yields_pragma {op : String} (hfree : connFree n start = true) (h : s = start) :
    (wrap op (dbExec n .ok)).run.Yields Quiet
      (Prog.Ends (fun s' _ => s' = start) fun _ _ => False) s := by
  subst h
  refine yields_wrap (yields_dbExec hfree ?_ ?_)
  · rintro k db - ⟨⟩
    rfl
  · rintro k e - ⟨⟩

theorem always_migrateSchema (hdistinct : ActiveDistinct start.db.rows) :
    (migrateSchema n).run.Always (SchemaKept start)
      (Prog.Ends (fun s copy => Schema start s copy) fun _ _ => True) start := by
  have hstart : SchemaKept start start := ⟨rfl, rfl, rfl⟩
  refine Prog.always_try (always_pragma rfl) ?_
  intro s₁ _ _ h₁
  refine Prog.always_try (always_pragma h₁) ?_
  rintro s₂ _ _ rfl
  refine Prog.always_try (always_wrap (always_dbQueryRow hstart)) ?_
  rintro s₃ legacyExists _ ⟨rfl, rfl⟩
  refine Prog.always_try (always_wrap (always_dbQueryRow hstart)) ?_
  rintro s₄ newExists _ ⟨rfl, rfl⟩
  refine Prog.always_try (always_keeping keeping_createJobs hdistinct hstart) ?_
  intro s₅ _ h₅ _
  refine Prog.always_try (always_addColumns hdistinct _ h₅) ?_
  intro s₆ _ h₆ _
  refine Prog.always_try (always_keeping keeping_ok hdistinct h₆) ?_
  intro s₇ _ h₇ _
  refine Prog.always_try (always_keeping keeping_dedupActive hdistinct h₇) ?_
  intro s₈ _ h₈ _
  refine Prog.always_try (P := fun s _ => s.db.Indexed) (always_wrap (always_dbExec h₈ ?_)) ?_
  · intro _ db hdb
    exact ⟨h₈.step keeping_createActiveUnique hdistinct hdb, createActiveUnique_indexed hdb⟩
  · intro s₉ _ h₉ hindexed
    exact ⟨h₉, h₉, hindexed, rfl⟩

theorem dedupActive_ok {table : JobsTable} (h : ActiveDistinct table.rows) :
    ∃ changed, JobsTable.dedupActive table = .ok changed := by
  unfold JobsTable.dedupActive
  rw [dedupActive_rows h]
  exact withRows_accepts table.primaryKey h

theorem createActiveUnique_ok {table : JobsTable} (h : ActiveDistinct table.rows) :
    ∃ changed, JobsTable.createActiveUnique table = .ok changed := by
  have hactive : ((table.rows.filter JobRow.isActive).map JobRow.activeKey).Nodup := h
  unfold JobsTable.createActiveUnique
  rw [dif_pos hactive]
  exact ⟨_, rfl⟩

theorem yields_migrateSchema (hdistinct : ActiveDistinct start.db.rows)
    (hfree : connFree n start = true) :
    (migrateSchema n).run.Yields Quiet
      (Prog.Ends (fun s copy => Schema start s copy) fun _ _ => False) start := by
  have hstart : SchemaKept start start := ⟨rfl, rfl, rfl⟩
  have hrows : ∀ {s : Migrating} {table : JobsTable}, SchemaKept start s → s.db.jobs = some table →
      ActiveDistinct table.rows := by
    intro s table hs htable
    rw [← rows_some htable, hs.rows]
    exact hdistinct
  refine Prog.yields_try (yields_pragma hfree rfl) ?_
  intro s₁ _ h₁
  refine Prog.yields_try (yields_pragma hfree h₁) ?_
  rintro s₂ _ rfl
  refine Prog.yields_try (yields_wrap (yields_dbQueryRow hfree)) ?_
  rintro s₃ legacyExists ⟨rfl, rfl⟩
  refine Prog.yields_try (yields_wrap (yields_dbQueryRow hfree)) ?_
  rintro s₄ newExists ⟨rfl, rfl⟩
  refine Prog.yields_try (yields_keeping keeping_createJobs hdistinct hfree hstart ⟨_, rfl⟩) ?_
  rintro s₅ _ ⟨h₅, hcreated⟩
  have hjobs₅ : ∃ table, s₅.db.jobs = some table := by
    rw [← Except.ok.inj hcreated]
    exact ⟨_, rfl⟩
  refine Prog.yields_try (yields_addColumns hdistinct hfree _ h₅ hjobs₅) ?_
  rintro s₆ _ ⟨h₆, table₆, htable₆⟩
  refine Prog.yields_try (yields_keeping keeping_ok hdistinct hfree h₆ ⟨_, rfl⟩) ?_
  rintro s₇ _ ⟨h₇, hsame⟩
  have htable₇ : s₇.db.jobs = some table₆ := by
    rw [← Except.ok.inj hsame]
    exact htable₆
  have hdedup := onJobs_ok htable₇ (dedupActive_ok (hrows h₇ htable₇))
  refine Prog.yields_try (yields_keeping keeping_dedupActive hdistinct hfree h₇ hdedup) ?_
  rintro s₈ _ ⟨h₈, hdone⟩
  obtain ⟨table₈, htable₈⟩ := onJobs_some hdone
  have hunique := onJobs_ok htable₈ (createActiveUnique_ok (hrows h₈ htable₈))
  refine Prog.yields_try
    (yields_keeping keeping_createActiveUnique hdistinct hfree h₈ hunique) ?_
  rintro s₉ _ ⟨h₉, hindexed⟩
  exact ⟨h₉, createActiveUnique_indexed hindexed, rfl⟩

end Schema

end AutoDeploy
