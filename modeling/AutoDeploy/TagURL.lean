import AutoDeploy.DeployArtifact
import AutoDeploy.QueueFifo
import AutoDeploy.Tag
import AutoDeploy.UriSyntax

namespace AutoDeploy

open Interleaving UriSyntax

/-- A path segment that no part of a URL can be taken for. -/
structure PlainSegment (segment : String) : Prop where
  nonempty : segment ≠ ""
  noDot : segment ≠ "."
  noDotDot : segment ≠ ".."
  characters : ∀ r ∈ segment.toList, r ≠ '/' ∧ r ≠ '?' ∧ r ≠ '#' ∧ r ≠ '%'

/-- The reference names an artifact of a release of the repository, whatever its tag is. -/
structure ReleaseDownload (owner name artifact : String) (uri : Reference) : Prop where
  scheme : uri.scheme = some "https".toList
  authority : uri.authority = some "github.com".toList
  path : ∃ release : List (List Char), normalSegments uri.path =
    [owner.toList, name.toList, "releases".toList, "download".toList] ++ release ++
      [artifact.toList]
  query : uri.query = none
  fragment : uri.fragment = none

section Download

variable {owner name tag artifact : String}

theorem PlainSegment.named {segment : String} (h : PlainSegment segment) :
    isNamed segment.toList = true := by
  have hne : ∀ text : String, segment ≠ text → segment.toList ≠ text.toList :=
    fun text hn he => hn (String.toList_injective he)
  have hempty := hne "" h.nonempty
  have hdot := hne "." h.noDot
  have hdots := hne ".." h.noDotDot
  simp only [isNamed, Bool.and_eq_true, Bool.not_eq_true', beq_eq_false_iff_ne]
  exact ⟨⟨hempty, hdot⟩, hdots⟩

theorem PlainSegment.split {segment : String} (h : PlainSegment segment) :
    GoStrings.splitChars '/' segment.toList = [segment.toList] :=
  GoStrings.splitChars_single fun hm => (h.characters '/' hm).1 rfl

theorem tagCharacter_plain {r : Char} (h : isTagCharacter r = true) :
    r ≠ '?' ∧ r ≠ '#' ∧ r ≠ '%' := by
  refine ⟨?_, ?_, ?_⟩
  all_goals
    rintro rfl
    exact absurd h (by decide)

theorem plain_of_all (text : List Char)
    (h : text.all (fun r => r != '?' && r != '#' && r != '%') = true) :
    ∀ r ∈ text, r ≠ '?' ∧ r ≠ '#' ∧ r ≠ '%' := by
  intro r hr
  have hr' := List.all_eq_true.mp h r hr
  simpa [and_assoc] using hr'

theorem plainSegment_of_all (segment : String) (hne : segment ≠ "") (hdot : segment ≠ ".")
    (hdots : segment ≠ "..")
    (h : segment.toList.all (fun r => r != '/' && r != '?' && r != '#' && r != '%') = true) :
    PlainSegment segment := by
  refine ⟨hne, hdot, hdots, ?_⟩
  intro r hr
  have hr' := List.all_eq_true.mp h r hr
  simpa [and_assoc] using hr'

/-- The path of the public URL, as it is written. -/
def downloadPath (owner name tag artifact : String) : List Char :=
  '/' :: (owner.toList ++ '/' :: (name.toList ++ '/' :: ("releases".toList ++
    '/' :: ("download".toList ++ '/' :: (tag.toList ++ '/' :: artifact.toList)))))

theorem publicDownloadURL_toList :
    (publicDownloadURL (owner ++ "/" ++ name) tag artifact).toList =
      "https".toList ++ ':' :: '/' :: '/' ::
        ("github.com".toList ++ downloadPath owner name tag artifact) := by
  have hhost : "https://github.com/".toList =
      "https".toList ++ ':' :: '/' :: '/' :: ("github.com".toList ++ ['/']) := by decide
  have hrelease : "/releases/download/".toList =
      '/' :: ("releases".toList ++ '/' :: ("download".toList ++ ['/'])) := by decide
  have hslash : "/".toList = ['/'] := by decide
  unfold publicDownloadURL downloadPath
  simp only [String.toList_append, hhost, hrelease, hslash]
  simp only [List.append_assoc, List.cons_append, List.nil_append]

theorem downloadPath_split (tag : String) (howner : PlainSegment owner)
    (hname : PlainSegment name) (hartifact : PlainSegment artifact) :
    GoStrings.splitChars '/' (downloadPath owner name tag artifact) =
      [] :: owner.toList :: name.toList :: "releases".toList :: "download".toList ::
        (GoStrings.splitChars '/' tag.toList ++ [artifact.toList]) := by
  have hreleases : GoStrings.splitChars '/' "releases".toList = ["releases".toList] := by decide
  have hdownload : GoStrings.splitChars '/' "download".toList = ["download".toList] := by decide
  have hroot : ∀ rest : List Char, GoStrings.splitChars '/' ('/' :: rest) =
      [] :: GoStrings.splitChars '/' rest := by
    intro rest
    simp [GoStrings.splitChars]
  unfold downloadPath
  rw [hroot, GoStrings.splitChars_append, GoStrings.splitChars_append,
    GoStrings.splitChars_append, GoStrings.splitChars_append, GoStrings.splitChars_append,
    howner.split, hname.split, hartifact.split, hreleases, hdownload]
  rfl

/-- The characters that could end the path or hide a dot segment do not occur in it. -/
theorem downloadPath_plain (howner : PlainSegment owner) (hname : PlainSegment name)
    (hartifact : PlainSegment artifact) (htag : ValidTag tag) :
    ∀ r ∈ downloadPath owner name tag artifact, r ≠ '?' ∧ r ≠ '#' ∧ r ≠ '%' := by
  have hreleases := plain_of_all "releases".toList (by decide)
  have hdownload := plain_of_all "download".toList (by decide)
  have hslash : '/' ≠ '?' ∧ '/' ≠ '#' ∧ '/' ≠ '%' := by decide
  have hplain : ∀ segment : String, PlainSegment segment →
      ∀ r ∈ segment.toList, r ≠ '?' ∧ r ≠ '#' ∧ r ≠ '%' :=
    fun segment h r hr => (h.characters r hr).2
  intro r hr
  simp only [downloadPath, List.mem_append, List.mem_cons] at hr
  rcases hr with rfl | hr | rfl | hr | rfl | hr | rfl | hr | rfl | hr | rfl | hr
  · exact hslash
  · exact hplain owner howner r hr
  · exact hslash
  · exact hplain name hname r hr
  · exact hslash
  · exact hreleases r hr
  · exact hslash
  · exact hdownload r hr
  · exact hslash
  · exact tagCharacter_plain (htag.characters r hr)
  · exact hslash
  · exact hplain artifact hartifact r hr

theorem downloadPath_segments (howner : PlainSegment owner) (hname : PlainSegment name)
    (hartifact : PlainSegment artifact) (htag : ValidTag tag) :
    normalSegments (downloadPath owner name tag artifact) =
      [owner.toList, name.toList, "releases".toList, "download".toList] ++
        (GoStrings.splitChars '/' tag.toList).filter isNamed ++ [artifact.toList] := by
  have hescape : '%' ∉ downloadPath owner name tag artifact :=
    fun hm => (downloadPath_plain howner hname hartifact htag '%' hm).2.2 rfl
  have hsplit := downloadPath_split tag howner hname hartifact
  have hnotDots : ∀ segment : String, PlainSegment segment → ['.', '.'] ≠ segment.toList := by
    intro segment h he
    exact h.noDotDot (String.toList_injective (he.symm.trans (by decide)))
  have hdots : ['.', '.'] ∉ GoStrings.splitChars '/' (downloadPath owner name tag artifact) := by
    rw [hsplit]
    intro hm
    simp only [List.mem_cons, List.mem_append, List.not_mem_nil, or_false] at hm
    rcases hm with he | he | he | he | he | hm | he
    · cases he
    · exact hnotDots owner howner he
    · exact hnotDots name hname he
    · exact absurd he (by decide)
    · exact absurd he (by decide)
    · exact htag.noDotDot (GoStrings.splitChars_infix hm)
    · exact hnotDots artifact hartifact he
  have hreleases : isNamed "releases".toList = true := by decide
  have hdownload : isNamed "download".toList = true := by decide
  have hempty : isNamed [] = false := by decide
  rw [normalSegments_plain hescape hdots, hsplit]
  simp only [List.filter_cons, List.filter_append, howner.named, hname.named, hartifact.named,
    hreleases, hdownload, hempty, ↓reduceIte, Bool.false_eq_true, List.filter_nil,
    List.cons_append, List.nil_append]

theorem publicDownloadURL_release (howner : PlainSegment owner) (hname : PlainSegment name)
    (hartifact : PlainSegment artifact) (htag : ValidTag tag) :
    ReleaseDownload owner name artifact
      (.parse (publicDownloadURL (owner ++ "/" ++ name) tag artifact).toList) := by
  have hplain := downloadPath_plain howner hname hartifact htag
  have hmeta : ∀ r ∈ "https".toList ++ "github.com".toList ++ downloadPath owner name tag artifact,
      r ≠ '?' ∧ r ≠ '#' := by
    have hfront := plain_of_all ("https".toList ++ "github.com".toList) (by decide)
    intro r hr
    rcases List.mem_append.mp hr with hr | hr
    · exact ⟨(hfront r hr).1, (hfront r hr).2.1⟩
    · exact ⟨(hplain r hr).1, (hplain r hr).2.1⟩
  have hparse : Reference.parse (publicDownloadURL (owner ++ "/" ++ name) tag artifact).toList =
      ⟨some "https".toList, some "github.com".toList, downloadPath owner name tag artifact,
        none, none⟩ := by
    rw [publicDownloadURL_toList]
    exact parse_absolute (by decide) (by decide) (by decide) (by decide) (Or.inr ⟨_, rfl⟩) hmeta
  rw [hparse]
  exact ⟨rfl, rfl, ⟨_, downloadPath_segments howner hname hartifact htag⟩, rfl, rfl⟩

end Download

/-- The rows of these ids hold tags that `validateTag` accepts. -/
def TagsValid (ids : List String) (jobs : Jobs) : Prop :=
  ∀ row ∈ jobs.rows, row.id ∈ ids → ValidTag row.tag

section Step

variable {rt : Runtime} {call : Call} {own : List ServerStep} {step : ServerStep}

theorem map_tags {before after : Jobs} {set : JobRow → JobRow}
    (hrows : after.rows = before.rows.map set) (hlaw : Jobs.LawfulOn before.rows set)
    {row' : JobRow} (hm : row' ∈ after.rows) :
    ∃ row ∈ before.rows, row.id = row'.id ∧ row.tag = row'.tag := by
  rw [hrows] at hm
  obtain ⟨row, hrow, rfl⟩ := List.mem_map.mp hm
  have hkey := congrArg Prod.snd (hlaw.key row hrow)
  exact ⟨row, hrow, (hlaw.id row hrow).symm, hkey.symm⟩

/-- A row that an action leaves was there with its tag, and the action inserted none of its id,
or its tag has just been accepted. -/
theorem action_tags (h : JobAction rt call own step) {row' : JobRow}
    (hm : row' ∈ step.after.jobs.rows) :
    ((∃ row ∈ step.before.jobs.rows, row.id = row'.id ∧ row.tag = row'.tag) ∧
      ¬ InsertedBy row'.id step) ∨ ValidTag row'.tag := by
  cases h with
  | quiet hjobs hpublished _ =>
    refine Or.inl ⟨⟨row', hjobs ▸ hm, rfl, rfl⟩, ?_⟩
    intro ⟨row, hrow, _⟩
    obtain ⟨event, he⟩ := hpublished _ hrow
    cases he
  | @inserted jobID appID tag trigger retryOfJobID _ htag _ _ hinsert hemit _ =>
    have hrows := Jobs.insert_rows hinsert
    have hpk := step.after.jobs.primaryKey
    rw [hrows] at hm
    rcases List.mem_append.mp hm with hold | hnew
    · refine Or.inl ⟨⟨row', hold, rfl, rfl⟩, ?_⟩
      intro ⟨row, hrow, hid⟩
      rw [hemit, List.mem_singleton] at hrow
      cases hrow
      rw [hrows, List.map_append, List.nodup_append] at hpk
      exact hpk.2.2 _ (List.mem_map_of_mem hold) _ (List.mem_singleton_self _) hid.symm
    · rw [List.mem_singleton.mp hnew]
      exact Or.inr htag
  | dequeued _ _ hnext hrows hemit _ =>
    exact Or.inl ⟨map_tags hrows (dequeue_lawful hnext) hm, by simp [InsertedBy, hemit]⟩
  | rewritten hrows hlaw _ hemit _ =>
    exact Or.inl ⟨map_tags hrows hlaw hm, by simp [InsertedBy, hemit]⟩
  | canceled _ hrows _ hemit _ =>
    exact Or.inl ⟨map_tags hrows cancel_lawful hm, by simp [InsertedBy, hemit]⟩
  | deleted _ _ hrows hemit _ =>
    rw [hrows] at hm
    exact Or.inl ⟨⟨row', (List.mem_filter.mp hm).1, rfl, rfl⟩, by simp [InsertedBy, hemit]⟩

theorem action_keeps_tags (h : JobAction rt call own step) {ids : List String}
    (valid : TagsValid ids step.before.jobs) :
    TagsValid (ids ++ (insertsIn [step]).map JobRow.id) step.after.jobs := by
  intro row' hm hid
  rcases action_tags h hm with ⟨⟨row, hrow, hsame, htag⟩, hnot⟩ | hvalid
  · rcases List.mem_append.mp hid with hold | hnew
    · exact htag ▸ valid row hrow (hsame ▸ hold)
    · obtain ⟨inserted, hinserted, he⟩ := List.mem_map.mp hnew
      rw [mem_insertsIn, emissions_singleton] at hinserted
      exact absurd ⟨inserted, hinserted, he⟩ hnot
  · exact hvalid

end Step

/-- The tables of a database over the lives of the processes that serve it, with the ids of the
rows that their calls inserted. Before each life `Migrate` may change the status of rows. -/
inductive Lives (first : Jobs) : Jobs → List String → Prop
  | created : Lives first first []
  | migrated {jobs jobs' : Jobs} {ids : List String} : Lives first jobs ids →
      (∀ row' ∈ jobs'.rows, ∃ row ∈ jobs.rows, row.id = row'.id ∧ row.tag = row'.tag) →
      Lives first jobs' ids
  | served {ids : List String} {rt : Runtime} {s₀ : Server} {cfg : ServerConfig} :
      Lives first s₀.jobs ids → rt.Reaches s₀ cfg →
      Lives first cfg.shared.jobs (ids ++ (insertsIn (steps cfg.history)).map JobRow.id)

section Runs

variable {rt : Runtime} {first : Jobs} {ids : List String} {s₀ : Server} {cfg : ServerConfig}

theorem served_tags (start : TagsValid ids s₀.jobs) (reach : rt.Reaches s₀ cfg) :
    TagsValid (ids ++ (insertsIn (steps cfg.history)).map JobRow.id) cfg.shared.jobs := by
  apply server_invariant (J := fun s history =>
    TagsValid (ids ++ (insertsIn (steps history)).map JobRow.id) s.jobs) _ _ _ _ reach
  · simpa [steps, insertsIn, emissions] using start
  · intro s history t call h
    simpa using h
  · intro history t call step h haction
    have hnext := action_keeps_tags haction h
    rwa [List.append_assoc, ← List.map_append, ← insertsIn_append, ← steps_acted] at hnext
  · intro s history t call value h _
    simpa using h

theorem lives_tags {jobs : Jobs} (lives : Lives first jobs ids) : TagsValid ids jobs := by
  induction lives with
  | created => exact fun _ _ hm => absurd hm List.not_mem_nil
  | migrated _ keeps ih =>
    intro row' hm hid
    obtain ⟨row, hrow, hsame, htag⟩ := keeps row' hm
    exact htag ▸ ih row hrow (hsame ▸ hid)
  | served _ reach ih => exact served_tags ih reach

/-- Every return of `DequeueNext` hands out the tag of a row as it was when it was taken, and
`validateTag` accepts the tag if a call had inserted a row of that id by then. -/
def HandsOutValid (ids : List String) (history : ServerHistory) : Prop :=
  ∀ pre t appID id tag post,
    history = pre ++ .returned t (.dequeueNext appID) (.dequeued (.ok (some (id, tag)))) :: post →
    ∃ front call step rear job, pre = front ++ .acted t call step :: rear ∧
      .dequeued job ∈ step.emitted ∧ job.id = id ∧ job.tag = tag ∧
      (id ∈ ids ++ (insertsIn (steps front)).map JobRow.id → validateTag tag = .ok ())

theorem handsOut_valid (lives : Lives first s₀.jobs ids) (reach : rt.Reaches s₀ cfg) :
    HandsOutValid ids cfg.history := by
  intro pre t appID id tag post h
  obtain ⟨job, hjob, rfl, -, rfl⟩ := server_explained reach pre _ post h
  have hmem : job ∈ dequeuesIn (ownSteps t pre) := by simp [hjob]
  obtain ⟨step, hstep, hevent⟩ := List.mem_flatMap.mp (mem_dequeuesIn.mp hmem)
  obtain ⟨call, hacted⟩ := mem_ownSteps.mp hstep
  obtain ⟨front, rear, rfl⟩ := List.append_of_mem hacted
  have hsplit : cfg.history = front ++ .acted t call step :: (rear ++ .returned t
      (.dequeueNext appID) (.dequeued (.ok (some (job.id, job.tag)))) :: post) := by
    rw [h, List.append_assoc, List.cons_append]
  obtain ⟨there, hreach, hhistory, hshared⟩ := reaches_before reach hsplit
  obtain ⟨own, haction⟩ := acted_action reach (hsplit ▸ by simp : Record.acted t call step ∈ _)
  obtain ⟨-, hnext⟩ := dequeued_next haction hevent
  refine ⟨front, call, step, rear, job, rfl, hevent, rfl, rfl, ?_⟩
  intro hid
  have hvalid := served_tags (lives_tags lives) hreach
  rw [hshared, hhistory] at hvalid
  exact validateTag_ok.mpr (hvalid job (Jobs.nextPending_mem hnext).1 hid)

/-- A tag that `validateTag` accepts confines the public URL to the releases of its repository,
and `DequeueNext` hands out such tags for the jobs that calls inserted, in every life of the
database. -/
theorem tags_confined (lives : Lives first s₀.jobs ids) (reach : rt.Reaches s₀ cfg) :
    (∀ owner name artifact tag : String, PlainSegment owner → PlainSegment name →
      PlainSegment artifact → validateTag tag = .ok () → ReleaseDownload owner name artifact
        (.parse (publicDownloadURL (owner ++ "/" ++ name) tag artifact).toList)) ∧
    HandsOutValid ids cfg.history := by
  refine ⟨?_, handsOut_valid lives reach⟩
  intro owner name artifact tag howner hname hartifact htag
  exact publicDownloadURL_release howner hname hartifact (validateTag_ok.mp htag)

end Runs

def handedOut (history : ServerHistory) : List (String × String) :=
  history.filterMap fun record =>
    match record with
    | .returned _ _ (.dequeued (.ok picked)) => picked
    | _ => none

/-- A job fails, and its process ends. -/
def failedOnce : List (Turn Choice Call) :=
  solo (.enqueue "a" "v1/./rc.1") 0 11 ⟨none, "j1"⟩ ++ solo (.dequeueNext "a") 1 3 ⟨none, ""⟩ ++
    solo (.markDone "j1" false "boom" none) 2 3 ⟨none, ""⟩

/-- The next life retries the job with its tag. -/
def retriedLater : List (Turn Choice Call) :=
  solo (.createRetryJob "j1" "a" "v1/./rc.1") 0 11 ⟨none, "j2"⟩ ++
    solo (.dequeueNext "a") 1 3 ⟨none, ""⟩

def failedLife : ServerConfig :=
  play (Runtime.program ⟨1, id, id⟩) (.started .empty .empty) failedOnce

def retryLife : ServerConfig :=
  play (Runtime.program ⟨1, id, id⟩) (.started failedLife.shared.jobs .empty) retriedLater

theorem tags_confined_retried : handedOut retryLife.history = [("j2", "v1/./rc.1")] ∧
    ReleaseDownload "o" "n" "app"
      (.parse (publicDownloadURL ("o" ++ "/" ++ "n") "v1/./rc.1" "app").toList) ∧
    HandsOutValid ["j1"] retryLife.history := by
  have hids : [] ++ (insertsIn (steps failedLife.history)).map JobRow.id = ["j1"] := by
    decide +kernel
  have hfailed : Runtime.Reaches ⟨1, id, id⟩ (.started .empty .empty) failedLife :=
    reaches_play _ _ failedOnce
  have hretry : Runtime.Reaches ⟨1, id, id⟩ (.started failedLife.shared.jobs .empty) retryLife :=
    reaches_play _ _ retriedLater
  have lives : Lives .empty failedLife.shared.jobs ["j1"] := hids ▸ .served .created hfailed
  obtain ⟨hurl, hout⟩ := tags_confined lives hretry
  have howner := plainSegment_of_all "o" (by decide) (by decide) (by decide) (by decide)
  have hname := plainSegment_of_all "n" (by decide) (by decide) (by decide) (by decide)
  have happ := plainSegment_of_all "app" (by decide) (by decide) (by decide)
    (by decide)
  exact ⟨by decide +kernel, hurl "o" "n" "app" "v1/./rc.1" howner hname happ (by decide), hout⟩

end AutoDeploy
