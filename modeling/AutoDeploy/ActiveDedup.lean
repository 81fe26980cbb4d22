import AutoDeploy.MigrationRuns

namespace AutoDeploy

open Interleaving

namespace JobsTable

/-- A row as the deduplication leaves it when it is not the one that is kept. -/
def superseded (row : JobRow) : JobRow :=
  { row with status := .failed, errorMsg := some supersededMsg }

def dedupRows (rows : List JobRow) : List JobRow :=
  rows.map fun row => if demoted rows row then superseded row else row

end JobsTable

open JobsTable

/-- One active row of smallest `seq` stays for each app and tag, the other active rows fail, and
all other rows stay as they are. -/
structure Deduplicated (before after : List JobRow) : Prop where
  ids : after.map JobRow.id = before.map JobRow.id
  kept : ∀ row ∈ before, row.isActive = true → ∃ survivor ∈ before, survivor ∈ after ∧
    survivor.isActive = true ∧ survivor.activeKey = row.activeKey ∧
    (∀ other ∈ before, other.isActive = true → other.activeKey = row.activeKey →
      survivor.seq ≤ other.seq) ∧
    ∀ other ∈ after, other.isActive = true → other.activeKey = row.activeKey → other = survivor
  failed : ∀ row ∈ before, row.isActive = true → row ∈ after ∨ superseded row ∈ after
  untouched : ∀ row ∈ before, row.isActive = false → row ∈ after

section Rows

variable {rows : List JobRow} {row kept other : JobRow} {key : String × String}

theorem superseded_inactive : (superseded row).isActive = false := rfl

theorem earliestActive_some (h : earliestActive rows key = some kept) :
    kept ∈ rows ∧ kept.isActive = true ∧ kept.activeKey = key ∧
      ∀ other ∈ rows, other.isActive = true → other.activeKey = key → kept.seq ≤ other.seq := by
  have hmem := List.argmin_mem h
  simp only [List.mem_filter, Bool.and_eq_true, beq_iff_eq] at hmem
  refine ⟨hmem.1, hmem.2.1, hmem.2.2, ?_⟩
  intro other hother hactive hkey
  have hin : other ∈ rows.filter fun row => row.isActive && row.activeKey == key := by
    simp [hother, hactive, hkey]
  exact List.le_of_mem_argmin hin h

theorem earliestActive_exists (hm : row ∈ rows) (hactive : row.isActive = true) :
    ∃ kept, earliestActive rows row.activeKey = some kept := by
  cases he : earliestActive rows row.activeKey with
  | some kept => exact ⟨kept, rfl⟩
  | none =>
    have hempty := List.argmin_eq_none.mp he
    have hin : row ∈ rows.filter fun other =>
        other.isActive && other.activeKey == row.activeKey := by
      simp [hm, hactive]
    rw [hempty] at hin
    cases hin

theorem demoted_inactive (h : row.isActive = false) : demoted rows row = false := by
  simp [demoted, h]

theorem demoted_kept (h : earliestActive rows row.activeKey = some row) :
    demoted rows row = false := by
  simp [demoted, h]

theorem mem_dedupRows (hm : row ∈ rows) (h : demoted rows row = false) : row ∈ dedupRows rows :=
  List.mem_map.mpr ⟨row, hm, by simp [h]⟩

/-- An active row that is left is the earliest one of its key. -/
theorem dedupRows_active (hm : other ∈ dedupRows rows) (hactive : other.isActive = true) :
    earliestActive rows other.activeKey = some other := by
  obtain ⟨row, hrow, rfl⟩ := List.mem_map.mp hm
  by_cases hd : demoted rows row = true
  · simp only [hd, ↓reduceIte] at hactive
    rw [superseded_inactive] at hactive
    cases hactive
  · simp only [hd, Bool.false_eq_true, ↓reduceIte] at hactive ⊢
    simpa [demoted, hactive] using hd

theorem dedupRows_ids (rows : List JobRow) :
    (dedupRows rows).map JobRow.id = rows.map JobRow.id := by
  unfold dedupRows
  rw [List.map_map]
  apply List.map_congr_left
  intro row _
  dsimp only [Function.comp]
  split
  next => rfl
  next => rfl

theorem dedupRows_deduplicated (rows : List JobRow) : Deduplicated rows (dedupRows rows) where
  ids := dedupRows_ids rows
  kept row hm hactive := by
    obtain ⟨survivor, he⟩ := earliestActive_exists hm hactive
    obtain ⟨hrow, hlive, hkey, hleast⟩ := earliestActive_some he
    have hstays := mem_dedupRows hrow (demoted_kept (hkey ▸ he))
    refine ⟨survivor, hrow, hstays, hlive, hkey, hleast, ?_⟩
    intro other hother hotherActive hotherKey
    have hearliest := dedupRows_active hother hotherActive
    rw [hotherKey, he] at hearliest
    exact (Option.some.inj hearliest).symm
  failed row hm _ := by
    cases hd : demoted rows row with
    | false => exact Or.inl (mem_dedupRows hm hd)
    | true => exact Or.inr (List.mem_map.mpr ⟨row, hm, by simp [hd]⟩)
  untouched row hm hinactive := mem_dedupRows hm (demoted_inactive hinactive)

/-- No two active rows are left with one key, so the unique index can be created. -/
theorem dedupRows_distinct (hids : (rows.map JobRow.id).Nodup) :
    ActiveDistinct (dedupRows rows) := by
  have hnodup : (dedupRows rows).Nodup := by
    apply List.Nodup.of_map JobRow.id
    rw [dedupRows_ids]
    exact hids
  apply (hnodup.filter _).map_on
  intro row hrow other hother hkey
  obtain ⟨hrow, hrowActive⟩ := List.mem_filter.mp hrow
  obtain ⟨hother, hotherActive⟩ := List.mem_filter.mp hother
  have hfirst := dedupRows_active hrow hrowActive
  have hsecond := dedupRows_active hother hotherActive
  rw [hkey, hsecond] at hfirst
  exact (Option.some.inj hfirst).symm

theorem dedupRows_same (h : ActiveDistinct rows) : dedupRows rows = rows := by
  have hsame : ∀ row ∈ rows, (if demoted rows row then superseded row else row) = row := by
    intro row hm
    simp [demoted_none h row hm]
  exact (List.map_congr_left hsame).trans (List.map_id rows)

end Rows

section Tables

/-- The columns once `ALTER TABLE` has been tried for some more. -/
def columnsWith (columns : List String) : List String → List String
  | [] => columns
  | column :: rest =>
    columnsWith (if column ∈ columns then columns else columns ++ [column]) rest

namespace JobsTable

def withColumns (table : JobsTable) (columns : List String) : JobsTable :=
  { table with columns := columnsWith table.columns columns }

/-- The table after a whole `Migrate`. -/
def migrated (table : JobsTable) : JobsTable where
  rows := dedupRows table.rows
  columns := columnsWith table.columns addedColumns
  activeIndex := true
  primaryKey := by
    rw [dedupRows_ids]
    exact table.primaryKey
  activeUnique _ := dedupRows_distinct table.primaryKey

end JobsTable

variable {table after : JobsTable} {columns more : List String}

theorem columnsWith_mem {column : String} (h : column ∈ columns) (more : List String) :
    column ∈ columnsWith columns more := by
  induction more generalizing columns with
  | nil => exact h
  | cons added rest ih =>
    apply ih
    split
    next => exact h
    next => exact List.mem_append_left _ h

theorem columnsWith_added {column : String} (h : column ∈ more) :
    column ∈ columnsWith columns more := by
  induction more generalizing columns with
  | nil => cases h
  | cons added rest ih =>
    unfold columnsWith
    rcases List.mem_cons.mp h with rfl | h
    · apply columnsWith_mem
      split
      next hm => exact hm
      next => simp
    · exact ih h

theorem columnsWith_same (h : ∀ column ∈ more, column ∈ columns) :
    columnsWith columns more = columns := by
  induction more with
  | nil => rfl
  | cons added rest ih =>
    have hadded := h added List.mem_cons_self
    simp only [columnsWith, hadded, ↓reduceIte]
    exact ih fun column hm => h column (List.mem_cons_of_mem _ hm)

/-- A table as `Migrate` may leave it when it is cut off. -/
structure Stage (table after : JobsTable) : Prop where
  rows : after.rows = table.rows ∨ after.rows = dedupRows table.rows
  columns : ∃ tried, List.Sublist tried addedColumns ∧
    after.columns = columnsWith table.columns tried
  activeIndex : after.activeIndex = table.activeIndex ∨ after.activeIndex = true

theorem Stage.refl (table : JobsTable) : Stage table table :=
  ⟨Or.inl rfl, ⟨[], List.nil_sublist _, rfl⟩, Or.inl rfl⟩

theorem Stage.deduplicated (h : Stage table after) :
    after.rows = table.rows ∨ Deduplicated table.rows after.rows := by
  rcases h.rows with hsame | hdedup
  · exact Or.inl hsame
  · exact Or.inr (hdedup ▸ dedupRows_deduplicated table.rows)

/-- A migrated table has no other stages. -/
theorem Stage.eq_migrated (h : Stage table.migrated after) : after = table.migrated := by
  obtain ⟨hrows, ⟨tried, htried, hcolumns⟩, hindex⟩ := h
  have hagain := dedupRows_same (dedupRows_distinct table.primaryKey)
  have hrows' : after.rows = dedupRows table.rows := by
    rcases hrows with hsame | hdedup
    · exact hsame
    · exact hdedup.trans hagain
  have hcolumns' : after.columns = columnsWith table.columns addedColumns :=
    hcolumns.trans (columnsWith_same fun column hm => columnsWith_added (htried.subset hm))
  have hindex' : after.activeIndex = true := by
    rcases hindex with hsame | htrue
    · exact hsame
    · exact htrue
  obtain ⟨rows, columns, activeIndex, primaryKey, activeUnique⟩ := after
  subst hrows' hcolumns' hindex'
  rfl

/-- A column that is there is reported as a duplicate, and the others are added. -/
theorem addColumn_cases (column : String) (table : JobsTable) :
    (addColumn column table = .ok (table.withColumns [column])) ∨
      ∃ e, addColumn column table = .error e ∧ isDuplicateColumn e = true ∧
        table.withColumns [column] = table := by
  by_cases hm : column ∈ table.columns
  · obtain ⟨e, he, hduplicate⟩ := addColumn_duplicate hm
    refine Or.inr ⟨e, he, hduplicate, ?_⟩
    unfold withColumns
    rw [columnsWith_same (by simpa using hm)]
  · refine Or.inl ?_
    simp [addColumn, withColumns, columnsWith, hm]

theorem dedupActive_eq (table : JobsTable) : ∃ after, table.dedupActive = .ok after ∧
    after.rows = dedupRows table.rows ∧ after.columns = table.columns ∧
    after.activeIndex = table.activeIndex := by
  have hids : ((dedupRows table.rows).map JobRow.id).Nodup := table.migrated.primaryKey
  have hactive : table.activeIndex = true →
      (((dedupRows table.rows).filter JobRow.isActive).map JobRow.activeKey).Nodup :=
    fun _ => dedupRows_distinct table.primaryKey
  change ∃ after, table.withRows (dedupRows table.rows) = .ok after ∧ _
  unfold withRows
  rw [dif_pos hids, dif_pos hactive]
  exact ⟨_, rfl, rfl, rfl, rfl⟩

theorem createActiveUnique_eq (h : ActiveDistinct table.rows) :
    ∃ after, table.createActiveUnique = .ok after ∧ after.rows = table.rows ∧
      after.columns = table.columns ∧ after.activeIndex = true := by
  have hactive : ((table.rows.filter JobRow.isActive).map JobRow.activeKey).Nodup := h
  unfold createActiveUnique
  rw [dif_pos hactive]
  exact ⟨_, rfl, rfl, rfl, rfl⟩

end Tables

section Runs

variable {n : ℕ} {legacy : Option LegacyQueue} {table before after : JobsTable}
  {statement : JobsTable → Except SqlError JobsTable}

/-- The process of `Migrate` on a database that has the table, between two statements. -/
def holding (legacy : Option LegacyQueue) (table : JobsTable) : Migrating :=
  ⟨⟨legacy, some table⟩, 0⟩

def Staged (legacy : Option LegacyQueue) (table : JobsTable) (s : Migrating) : Prop :=
  ∃ after, Stage table after ∧ s = holding legacy after

theorem connFree_holding : connFree n (holding legacy table) = true := by
  unfold connFree holding
  cases n with
  | zero => rfl
  | succ n => simp

theorem onJobs_holding (h : statement before = .ok after) :
    Database.onJobs statement (holding legacy before).db = .ok (holding legacy after).db := by
  simp only [Database.onJobs, holding, h]
  rfl

theorem always_statement (op : String) {statement : Database → Except SqlError Database}
    (hbefore : Stage table before) (hafter : Stage table after)
    (h : statement (holding legacy before).db = .ok (holding legacy after).db) :
    (wrap op (dbExec n statement)).run.Always (Staged legacy table)
      (Prog.Ends (fun s _ => s = holding legacy after) fun _ _ => True)
      (holding legacy before) := by
  apply always_wrap (always_dbExec ⟨before, hbefore, rfl⟩ _)
  intro _ db hdb
  cases h.symm.trans hdb
  exact ⟨⟨after, hafter, rfl⟩, rfl⟩

theorem yields_statement (op : String) (after : JobsTable)
    {statement : Database → Except SqlError Database}
    (h : statement (holding legacy before).db = .ok (holding legacy after).db) :
    (wrap op (dbExec n statement)).run.Yields Quiet
      (Prog.Ends (fun s _ => s = holding legacy after) fun _ _ => False)
      (holding legacy before) := by
  apply yields_wrap (yields_dbExec connFree_holding _ _)
  · intro _ db _ hdb
    cases h.symm.trans hdb
    rfl
  · intro _ e _ he
    cases h.symm.trans he

theorem withColumns_cons (before : JobsTable) (column : String) (rest : List String) :
    (before.withColumns [column]).withColumns rest = before.withColumns (column :: rest) := rfl

theorem always_columns (columns : List String)
    (h : ∀ tried, List.Sublist tried columns → Stage table (before.withColumns tried)) :
    (addColumns n columns).run.Always (Staged legacy table)
      (Prog.Ends (fun s _ => ∃ tried, List.Sublist tried columns ∧
        s = holding legacy (before.withColumns tried)) fun _ _ => True)
      (holding legacy before) := by
  have hstart : Stage table before := h [] (List.nil_sublist _)
  induction columns generalizing before with
  | nil => exact ⟨⟨before, hstart, rfl⟩, [], List.Sublist.slnil, rfl⟩
  | cons column rest ih =>
    have hskip : (addColumns n rest).run.Always (Staged legacy table)
        (Prog.Ends (fun s _ => ∃ tried, List.Sublist tried (column :: rest) ∧
          s = holding legacy (before.withColumns tried)) fun _ _ => True)
        (holding legacy before) := by
      apply (ih (fun tried ht => h tried (ht.cons column)) hstart).mono
      intro s result _ hresult
      cases result with
      | error e => trivial
      | ok _ =>
        obtain ⟨tried, ht, hs⟩ := hresult
        exact ⟨tried, ht.cons column, hs⟩
    have hadded : (addColumns n rest).run.Always (Staged legacy table)
        (Prog.Ends (fun s _ => ∃ tried, List.Sublist tried (column :: rest) ∧
          s = holding legacy (before.withColumns tried)) fun _ _ => True)
        (holding legacy (before.withColumns [column])) := by
      have hnext : ∀ tried, List.Sublist tried rest →
          Stage table ((before.withColumns [column]).withColumns tried) :=
        fun tried ht => h (column :: tried) (ht.cons_cons column)
      apply (ih hnext (hnext [] (List.nil_sublist _))).mono
      intro s result _ hresult
      cases result with
      | error e => trivial
      | ok _ =>
        obtain ⟨tried, ht, hs⟩ := hresult
        exact ⟨column :: tried, ht.cons_cons column, hs⟩
    have hadd : (dbExec n (Database.onJobs (addColumn column))).Always (Staged legacy table)
        (fun s result => (∃ e, result = .error e ∧ s = holding legacy before) ∨
          (result = .ok () ∧ s = holding legacy (before.withColumns [column])))
        (holding legacy before) := by
      have hstaged : Staged legacy table (holding legacy before) := ⟨before, hstart, rfl⟩
      apply Prog.always_await hstaged
      rintro ⟨_ | text, id⟩ _
      · rcases addColumn_cases column before with hok | ⟨e, he, -, -⟩
        · have hstage := h [column] ((List.nil_sublist rest).cons_cons column)
          dsimp only
          rw [onJobs_holding hok]
          exact ⟨⟨_, hstage, rfl⟩, Or.inr ⟨rfl, rfl⟩⟩
        · have herror : Database.onJobs (addColumn column) (holding legacy before).db =
              .error e := by
            simp only [Database.onJobs, holding, he]
            rfl
          dsimp only
          rw [herror]
          exact ⟨hstaged, Or.inl ⟨e, rfl, rfl⟩⟩
      · exact ⟨hstaged, Or.inl ⟨_, rfl, rfl⟩⟩
    apply Prog.always_try (Prog.always_lift hadd)
    rintro s added hs (⟨e, rfl, rfl⟩ | ⟨rfl, rfl⟩)
    · cases hduplicate : isDuplicateColumn e with
      | true => simpa [hduplicate] using hskip
      | false => simpa [hduplicate] using ⟨hs, trivial⟩
    · exact hadded

theorem yields_columns (before : JobsTable) (columns : List String) :
    (addColumns n columns).run.Yields Quiet
      (Prog.Ends (fun s _ => s = holding legacy (before.withColumns columns)) fun _ _ => False)
      (holding legacy before) := by
  induction columns generalizing before with
  | nil => rfl
  | cons column rest ih =>
    have hadd : (dbExec n (Database.onJobs (addColumn column))).Yields Quiet
        (fun s result => s = holding legacy (before.withColumns [column]) ∧
          ∀ e, result = .error e → isDuplicateColumn e = true) (holding legacy before) := by
      rcases addColumn_cases column before with hok | ⟨e, he, hduplicate, hsame⟩
      · apply yields_dbExec connFree_holding
        · intro _ db _ hdb
          cases (onJobs_holding hok).symm.trans hdb
          exact ⟨rfl, by simp⟩
        · intro _ e _ he
          cases (onJobs_holding hok).symm.trans he
      · have herror : Database.onJobs (addColumn column) (holding legacy before).db =
            .error e := by
          simp only [Database.onJobs, holding, he]
          rfl
        apply yields_dbExec connFree_holding
        · intro _ db _ hdb
          cases herror.symm.trans hdb
        · intro _ other _ hother
          cases herror.symm.trans hother
          rw [hsame]
          exact ⟨rfl, fun _ he => Except.error.inj he ▸ hduplicate⟩
    have hrest := ih (before.withColumns [column])
    rw [withColumns_cons] at hrest
    apply Prog.yields_try (Prog.yields_lift hadd)
    rintro s added ⟨rfl, hduplicate⟩
    cases added with
    | ok _ => exact hrest
    | error e => simpa [hduplicate e rfl] using hrest

/-- A run of the schema statements that comes to its end has left one active row for each key and
the index, and it does not ask for a copy of the legacy rows. -/
theorem always_schema :
    (migrateSchema n).run.Always (Staged legacy table)
      (Prog.Ends (fun s copy => copy = false ∧ ∃ after, s = holding legacy after ∧
        after.rows = dedupRows table.rows ∧ after.activeIndex = true) fun _ _ => True)
      (holding legacy table) := by
  have hstart := Stage.refl table
  have hstaged : Staged legacy table (holding legacy table) := ⟨table, hstart, rfl⟩
  apply Prog.always_try (always_statement "deploy_queue: set WAL" hstart hstart rfl)
  rintro _ _ _ rfl
  apply Prog.always_try
    (always_statement "deploy_queue: set busy_timeout" hstart hstart rfl)
  rintro _ _ _ rfl
  apply Prog.always_try (always_wrap (always_dbQueryRow hstaged))
  rintro _ legacyExists _ ⟨rfl, -⟩
  apply Prog.always_try (always_wrap (always_dbQueryRow hstaged))
  rintro _ newExists _ ⟨rfl, rfl⟩
  apply Prog.always_try
    (always_statement "deploy_queue: create table" hstart hstart rfl)
  rintro _ _ _ rfl
  have hcolumns : ∀ tried, List.Sublist tried addedColumns →
      Stage table (table.withColumns tried) :=
    fun tried ht => ⟨Or.inl rfl, ⟨tried, ht, rfl⟩, Or.inl rfl⟩
  apply Prog.always_try (always_columns addedColumns hcolumns)
  rintro _ _ _ ⟨tried, ht, rfl⟩
  have hwide := hcolumns tried ht
  apply Prog.always_try
    (always_statement "deploy_queue: create index" hwide hwide rfl)
  rintro _ _ _ rfl
  obtain ⟨deduped, hok, hrows, hcols, hindex⟩ := dedupActive_eq (table.withColumns tried)
  have hdeduped : Stage table deduped :=
    ⟨Or.inr hrows, ⟨tried, ht, hcols⟩, Or.inl hindex⟩
  apply Prog.always_try (always_statement _ hwide hdeduped (onJobs_holding hok))
  rintro _ _ _ rfl
  have hdistinct : ActiveDistinct deduped.rows := by
    rw [hrows]
    exact dedupRows_distinct table.primaryKey
  obtain ⟨indexed, hcreated, hrows', hcols', hindex'⟩ := createActiveUnique_eq hdistinct
  have hindexed : Stage table indexed :=
    ⟨Or.inr (hrows'.trans hrows), ⟨tried, ht, hcols'.trans hcols⟩, Or.inr hindex'⟩
  apply Prog.always_try (always_statement _ hdeduped hindexed (onJobs_holding hcreated))
  rintro _ _ hs rfl
  exact ⟨hs, by simp [holding], indexed, rfl, hrows'.trans hrows, hindex'⟩

theorem yields_schema :
    (migrateSchema n).run.Yields Quiet
      (Prog.Ends (fun s copy => copy = false ∧ s = holding legacy table.migrated)
        fun _ _ => False) (holding legacy table) := by
  apply Prog.yields_try
    (yields_statement "deploy_queue: set WAL" table rfl)
  rintro _ _ rfl
  apply Prog.yields_try
    (yields_statement "deploy_queue: set busy_timeout" table rfl)
  rintro _ _ rfl
  apply Prog.yields_try (yields_wrap (yields_dbQueryRow connFree_holding))
  rintro _ legacyExists ⟨rfl, -⟩
  apply Prog.yields_try (yields_wrap (yields_dbQueryRow connFree_holding))
  rintro _ newExists ⟨rfl, rfl⟩
  apply Prog.yields_try
    (yields_statement "deploy_queue: create table" table rfl)
  rintro _ _ rfl
  apply Prog.yields_try (yields_columns table addedColumns)
  rintro _ _ rfl
  apply Prog.yields_try
    (yields_statement "deploy_queue: create index" (table.withColumns addedColumns) rfl)
  rintro _ _ rfl
  obtain ⟨deduped, hok, hrows, hcols, hindex⟩ :=
    dedupActive_eq (table.withColumns addedColumns)
  apply Prog.yields_try (yields_statement _ _ (onJobs_holding hok))
  rintro _ _ rfl
  have hdistinct : ActiveDistinct deduped.rows := by
    rw [hrows]
    exact dedupRows_distinct table.primaryKey
  obtain ⟨indexed, hcreated, hrows', hcols', hindex'⟩ := createActiveUnique_eq hdistinct
  apply Prog.yields_try (yields_statement _ _ (onJobs_holding hcreated))
  rintro _ _ rfl
  have hsame : indexed = table.migrated := by
    obtain ⟨rows, columns, activeIndex, primaryKey, activeUnique⟩ := indexed
    cases hrows'.trans hrows
    cases hcols'.trans hcols
    cases hindex'
    rfl
  rw [hsame]
  exact ⟨by simp [holding], rfl⟩

variable {scanTime : String → Option String}

theorem always_migrate_held :
    (Migrate n scanTime).run.Always (Staged legacy table)
      (Prog.Ends (fun s _ => ∃ after, s = holding legacy after ∧
        after.rows = dedupRows table.rows ∧ after.activeIndex = true) fun _ _ => True)
      (holding legacy table) := by
  apply Prog.always_try always_schema
  rintro s copy hs ⟨rfl, hafter⟩
  exact ⟨hs, hafter⟩

theorem yields_migrate_held :
    (Migrate n scanTime).run.Yields Quiet
      (fun s result => result = .ok () ∧ s = holding legacy table.migrated)
      (holding legacy table) := by
  have hends : (Migrate n scanTime).run.Yields Quiet
      (Prog.Ends (fun s _ => s = holding legacy table.migrated) fun _ _ => False)
      (holding legacy table) := by
    apply Prog.yields_try yields_schema
    rintro s copy ⟨rfl, hs⟩
    exact hs
  apply hends.mono
  intro s result hresult
  cases result with
  | ok _ => exact ⟨rfl, hresult⟩
  | error e => exact hresult.elim

end Runs

/-- What `Migrate` does to a `deploy_jobs` that is there, whatever its rows are. -/
structure DedupMigration (maxOpenConns : ℕ) (scanTime : String → Option String)
    (legacy : Option LegacyQueue) (table : JobsTable) : Prop where
  completes : (Migrate maxOpenConns scanTime).run.Yields Quiet
    (fun s result => result = .ok () ∧ s.db = ⟨legacy, some table.migrated⟩)
    ⟨⟨legacy, some table⟩, 0⟩
  outcome : ∀ s, (Migrate maxOpenConns scanTime).run.Runs ⟨⟨legacy, some table⟩, 0⟩
      (.ret (.ok ())) s →
    s.db.legacy = legacy ∧ Deduplicated table.rows s.db.rows ∧ s.db.Indexed
  cutOff : ∀ p s, (Migrate maxOpenConns scanTime).run.Runs ⟨⟨legacy, some table⟩, 0⟩ p s →
    s.db.legacy = legacy ∧ (s.db.rows = table.rows ∨ Deduplicated table.rows s.db.rows)
  indexes : ∀ deduped, table.dedupActive = .ok deduped →
    ∃ indexed, deduped.createActiveUnique = .ok indexed
  again : ∀ s, (Migrate maxOpenConns scanTime).run.Runs ⟨⟨legacy, some table⟩, 0⟩
      (.ret (.ok ())) s →
    ∀ p s', (Migrate maxOpenConns scanTime).run.Runs ⟨s.db, 0⟩ p s' → s'.db.rows = s.db.rows
  settled : ∀ p s, (Migrate maxOpenConns scanTime).run.Runs
      ⟨⟨legacy, some table.migrated⟩, 0⟩ p s → s.db = ⟨legacy, some table.migrated⟩

/-- `Migrate` leaves one active row of smallest `seq` for each app and tag, its unique index can
always be created on the result, and running it again changes nothing. -/
theorem migrate_deduplicates (maxOpenConns : ℕ) (scanTime : String → Option String)
    (legacy : Option LegacyQueue) (table : JobsTable) :
    DedupMigration maxOpenConns scanTime legacy table where
  completes := by
    apply yields_migrate_held.mono
    rintro s result ⟨hok, rfl⟩
    exact ⟨hok, rfl⟩
  outcome s runs := by
    obtain ⟨after, rfl, hrows, hindex⟩ := always_migrate_held.returned runs
    have hdedup := dedupRows_deduplicated table.rows
    rw [← hrows] at hdedup
    exact ⟨rfl, hdedup, after, rfl, hindex⟩
  cutOff p s runs := by
    obtain ⟨after, hstage, rfl⟩ := always_migrate_held.cut runs
    exact ⟨rfl, hstage.deduplicated⟩
  indexes deduped h := by
    obtain ⟨after, hok, hrows, -, -⟩ := dedupActive_eq table
    cases hok.symm.trans h
    have hdistinct : ActiveDistinct deduped.rows := by
      rw [hrows]
      exact dedupRows_distinct table.primaryKey
    obtain ⟨indexed, hcreated, -⟩ := createActiveUnique_eq hdistinct
    exact ⟨indexed, hcreated⟩
  again s runs p s' runs' := by
    obtain ⟨after, rfl, hrows, -⟩ := always_migrate_held.returned runs
    obtain ⟨again, hstage, rfl⟩ := always_migrate_held.cut runs'
    have hdistinct : ActiveDistinct after.rows := by
      rw [hrows]
      exact dedupRows_distinct table.primaryKey
    rcases hstage.rows with hsame | hdedup
    · exact hsame
    · exact hdedup.trans (dedupRows_same hdistinct)
  settled p s runs := by
    obtain ⟨after, hstage, rfl⟩ := always_migrate_held.cut runs
    rw [hstage.eq_migrated]
    rfl

end AutoDeploy
