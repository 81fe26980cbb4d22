import AutoDeploy.Installer

namespace AutoDeploy.Installer

open Interleaving

/-- The paths that the script installs to. -/
def Env.installed (env : Env) : List String := [env.binaryPath, env.serviceUnitPath, env.envPath]

/-- The installed paths are different ones, and the temporary directory holds none of them. -/
structure Apart (env : Env) (tmpDir : String) : Prop where
  distinct : env.installed.Nodup
  outside : ∀ path ∈ env.installed, inside tmpDir path = false

instance (env : Env) (tmpDir : String) : Decidable (Apart env tmpDir) :=
  decidable_of_iff (env.installed.Nodup ∧ ∀ path ∈ env.installed, inside tmpDir path = false)
    ⟨fun h => ⟨h.1, h.2⟩, fun h => ⟨h.1, h.2⟩⟩

def fetches (env : Env) (tmpDir version assetName : String) : List (List String) :=
  [[env.curl, "-fsSL", releaseAssetURL env version assetName, "-o", tmpDir ++ "/" ++ assetName],
    [env.unzip, "-Z1", tmpDir ++ "/" ++ assetName],
    [env.unzip, "-q", tmpDir ++ "/" ++ assetName, "-d", tmpDir ++ "/unpacked"],
    [env.curl, "-fsSL", releaseRawURL env version env.serviceUnitName, "-o",
      tmpDir ++ "/" ++ env.serviceUnitName],
    [env.curl, "-fsSL", releaseRawURL env version env.envTemplateName, "-o",
      tmpDir ++ "/" ++ env.envTemplateName]]

/-- The copies that the script makes, the last of them where no environment file is there. -/
def copies (env : Env) (tmpDir : String) (kept : Bool) : List (List String) :=
  [[env.install, "-d", "-m", "755", env.installDir],
    [env.install, "-m", "755", tmpDir ++ "/unpacked/" ++ env.binaryName, env.binaryPath],
    [env.install, "-D", "-m", "644", tmpDir ++ "/" ++ env.serviceUnitName, env.serviceUnitPath]] ++
    if kept then []
    else [[env.install, "-D", "-m", "644", tmpDir ++ "/" ++ env.envTemplateName, env.envPath]]

def activation (env : Env) : List (List String) :=
  [[env.systemctl, "daemon-reload"], [env.systemctl, "enable", env.serviceUnitName],
    [env.systemctl, "restart", env.serviceUnitName],
    [env.systemctl, "is-active", "--quiet", env.serviceUnitName]]

/-- `uname -m` has answered with this architecture. -/
def Machine (env : Env) (arch : String) (h : Host) : Prop :=
  ∃ out, ([env.uname, "-m"], out) ∈ h.done ∧ normalizeArch (captured out) = some arch

/-- The version is the one that was asked for, or that of the latest release. -/
def Resolved (env : Env) (args : List String) (version : String) (h : Host) : Prop :=
  (∃ tag, args = [tag] ∧ version = captured tag) ∨
    args = [] ∧ ∃ json, ([env.curl, "-fsSL", latestReleaseAPIURL env], json) ∈ h.done ∧
      version = latestTag (captured json)

/-- Everything of one release was fetched, with the asset for this machine, and the archive lists
the binary and nothing else. -/
structure Fetched (env : Env) (tmpDir : String) (args : List String)
    (version assetName : String) (h : Host) : Prop where
  tag : GoStrings.hasPrefix version "v" = true
  resolved : Resolved env args version h
  asset : ∃ arch, Machine env arch h ∧ assetNameForArch env arch = some assetName
  commands : List.Sublist (fetches env tmpDir version assetName) (h.done.map Prod.fst)
  archive : ∃ listing, ([env.unzip, "-Z1", tmpDir ++ "/" ++ assetName], listing) ∈ h.done ∧
    archiveContents listing = env.binaryName

/-- What holds of the host at each moment of a run. -/
structure Keeps (env : Env) (tmpDir : String) (args : List String)
    (files : String → Option HostFile) (h : Host) : Prop where
  elsewhere : ∀ path, path ∉ env.installed → inside tmpDir path = false →
    h.files path = files path
  envFile : ∀ file, files env.envPath = some file → h.files env.envPath = some file
  fetched : (∃ path ∈ env.installed, h.files path ≠ files path) ∨
    (∃ argv ∈ h.done.map Prod.fst, argv ∈ activation env) →
      ∃ version assetName, Fetched env tmpDir args version assetName h

/-- What a run has done that comes to its end. -/
structure Installed (env : Env) (tmpDir : String) (args : List String)
    (files : String → Option HostFile) (h : Host) : Prop where
  commands : ∃ version assetName, Fetched env tmpDir args version assetName h ∧
    List.Sublist (fetches env tmpDir version assetName ++
      copies env tmpDir (files env.envPath).isSome ++ activation env) (h.done.map Prod.fst)
  binary : ∃ content, h.files env.binaryPath = some ⟨content, 0o755⟩
  serviceUnit : ∃ content, h.files env.serviceUnitPath = some ⟨content, 0o644⟩
  envFile : ∃ file, h.files env.envPath = some file ∧
    (files env.envPath = some file ∨ files env.envPath = none ∧ file.mode = 0o644)

section Rules

variable {α β : Type} {J : Host → Prop} {h : Host}

/-- The script passes only through hosts of `J`, and goes on only where `P` holds. -/
def Passes (J : Host → Prop) (P : Host → α → Prop) (script : Script α) (h : Host) : Prop :=
  script.run.Always J (Prog.Ends P fun _ _ => True) h

theorem passes_bind {P : Host → β → Prop} {Q : Host → α → Prop} {first : Script β}
    {rest : β → Script α} (hf : Passes J P first h)
    (hr : ∀ h value, J h → P h value → Passes J Q (rest value) h) :
    Passes J Q (first >>= rest) h :=
  Prog.always_try hf hr

theorem passes_pure {P : Host → α → Prop} {value : α} (hs : J h) (hP : P h value) :
    Passes J P (pure value) h :=
  ⟨hs, hP⟩

theorem passes_throw {P : Host → α → Prop} {stop : Exit} (hs : J h) :
    Passes J P (throw stop) h :=
  ⟨hs, trivial⟩

theorem passes_fail {P : Host → α → Prop} {message : String} (hs : J h) :
    Passes J P (fail message) h :=
  ⟨hs, trivial⟩

theorem passes_failIf {P : Host → Unit → Prop} {bad : Prop} [Decidable bad] {message : String}
    (hs : J h) (hP : ¬ bad → P h ()) : Passes J P (failIf bad message) h := by
  unfold failIf
  split
  next => exact passes_fail hs
  next hgood => exact passes_pure hs (hP hgood)

theorem passes_command {P : Host → Answer → Prop} {argv : List String} {scope : String → Bool}
    (hs : J h) (hk : ∀ k, J (h.after argv scope k) ∧ P (h.after argv scope k) k) :
    Passes J P (command argv scope) h :=
  Prog.always_lift (Prog.always_atomic hs hk)

theorem passes_simple {P : Host → Answer → Prop} {argv : List String} {scope : String → Bool}
    (hs : J h) (hJ : ∀ k, J (h.after argv scope k))
    (hP : ∀ k, k.status = 0 → P (h.after argv scope k) k) :
    Passes J P (simple argv scope) h := by
  unfold simple
  refine passes_bind (passes_command (P := fun h' k => k.status = 0 → P h' k) hs
    fun k => ⟨hJ k, hP k⟩) ?_
  intro h' k hs' hk
  split
  next hzero => exact passes_pure hs' (hk hzero)
  next => exact passes_throw hs'

theorem Passes.mono {P Q : Host → α → Prop} {script : Script α} (hp : Passes J P script h)
    (hPQ : ∀ h value, J h → P h value → Q h value) : Passes J Q script h := by
  refine Prog.Always.mono hp ?_
  intro h' result hs hresult
  cases result with
  | ok value => exact hPQ h' value hs hresult
  | error stop => trivial

theorem Passes.imp {J' : Host → Prop} {P : Host → α → Prop} {script : Script α}
    (hp : Passes J P script h) (hJ : ∀ h, J h → J' h) : Passes J' P script h :=
  Prog.Always.imp hp hJ fun _ _ _ hP => hP

end Rules

section Stages

variable {env : Env} {tmpDir version assetName : String} {args : List String}
  {files : String → Option HostFile} {h : Host} {argv : List String} {scope : String → Bool}
  {k : Answer} {cmds : List (List String)} {outs : List (List String × String)}

/-- Before the first copy, only the temporary directory has changed. -/
structure Early (env : Env) (tmpDir : String) (files : String → Option HostFile) (h : Host) :
    Prop where
  outside : ∀ path, inside tmpDir path = false → h.files path = files path
  quiet : ∀ argv ∈ h.done.map Prod.fst, argv ∉ activation env

/-- From the first copy on, the release has been fetched. -/
structure Late (env : Env) (tmpDir : String) (args : List String) (version assetName : String)
    (files : String → Option HostFile) (h : Host) : Prop where
  elsewhere : ∀ path, path ∉ env.installed → inside tmpDir path = false →
    h.files path = files path
  envFile : ∀ file, files env.envPath = some file → h.files env.envPath = some file
  fetched : Fetched env tmpDir args version assetName h

/-- These commands have succeeded in this order, and some have written these outputs. -/
structure Seen (cmds : List (List String)) (outs : List (List String × String)) (h : Host) :
    Prop where
  ran : List.Sublist cmds (h.done.map Prod.fst)
  told : outs ⊆ h.done

theorem inside_append (dir name : String) : inside dir (dir ++ "/" ++ name) = true := by
  simp [inside]

theorem inside_unpacked {path : String} (hin : inside (tmpDir ++ "/unpacked") path = true) :
    inside tmpDir path = true := by
  rw [inside, List.isPrefixOf_iff_prefix] at hin ⊢
  refine List.IsPrefix.trans ?_ hin
  refine ⟨"unpacked/".toList, ?_⟩
  rw [← String.toList_append, String.append_assoc, String.append_assoc]
  rfl

theorem done_after (h : Host) (argv : List String) (scope : String → Bool) (k : Answer) :
    h.done ⊆ (h.after argv scope k).done := by
  unfold Host.after
  dsimp only
  split
  · exact List.subset_append_left _ _
  · exact fun _ hm => hm

theorem commands_after (h : Host) (argv : List String) (scope : String → Bool) (k : Answer) :
    List.Sublist (h.done.map Prod.fst) ((h.after argv scope k).done.map Prod.fst) := by
  unfold Host.after
  dsimp only
  split
  · rw [List.map_append]
    exact List.sublist_append_left _ _
  · exact List.Sublist.refl _

theorem files_after {path : String} (hscope : scope path = false) :
    (h.after argv scope k).files path = h.files path := by
  simp [Host.after, hscope]

theorem Seen.after (hseen : Seen cmds outs h) : Seen cmds outs (h.after argv scope k) :=
  ⟨hseen.ran.trans (commands_after h argv scope k),
    fun _ hm => done_after h argv scope k (hseen.told hm)⟩

theorem Seen.next (hseen : Seen cmds outs h) (hk : k.status = 0) :
    Seen (cmds ++ [argv]) ((argv, k.stdout) :: outs) (h.after argv scope k) := by
  have hdone : (h.after argv scope k).done = h.done ++ [(argv, k.stdout)] := by
    simp [Host.after, hk]
  constructor
  · rw [hdone, List.map_append]
    exact hseen.ran.append (List.Sublist.refl _)
  · rw [hdone]
    intro c hm
    rcases List.mem_cons.mp hm with rfl | hm
    · exact List.mem_append_right _ List.mem_cons_self
    · exact List.mem_append_left _ (hseen.told hm)

theorem Seen.forget {out : List String × String} (hseen : Seen cmds (out :: outs) h) :
    Seen cmds outs h :=
  ⟨hseen.ran, fun _ hm => hseen.told (List.mem_cons_of_mem _ hm)⟩

theorem Early.after (he : Early env tmpDir files h)
    (hscope : ∀ path, scope path = true → inside tmpDir path = true)
    (hargv : argv ∉ activation env) : Early env tmpDir files (h.after argv scope k) := by
  constructor
  · intro path hpath
    have hno : scope path = false := by
      by_contra hyes
      rw [hscope path (by simpa using hyes)] at hpath
      cases hpath
    rw [files_after hno, he.outside path hpath]
  · intro other hm
    unfold Host.after at hm
    dsimp only at hm
    split at hm
    · rw [List.map_append] at hm
      rcases List.mem_append.mp hm with hm | hm
      · exact he.quiet other hm
      · rw [List.mem_singleton.mp hm]
        exact hargv
    · exact he.quiet other hm

theorem Machine.grow {arch : String} {h' : Host} (hmachine : Machine env arch h)
    (hdone : h.done ⊆ h'.done) : Machine env arch h' := by
  obtain ⟨out, hm, harch⟩ := hmachine
  exact ⟨out, hdone hm, harch⟩

theorem Resolved.grow {h' : Host} (hresolved : Resolved env args version h)
    (hdone : h.done ⊆ h'.done) : Resolved env args version h' := by
  refine hresolved.imp_right ?_
  rintro ⟨hargs, json, hm, hversion⟩
  exact ⟨hargs, json, hdone hm, hversion⟩

theorem Fetched.after (hf : Fetched env tmpDir args version assetName h) :
    Fetched env tmpDir args version assetName (h.after argv scope k) := by
  have hdone := done_after h argv scope k
  obtain ⟨arch, hmachine, hasset⟩ := hf.asset
  obtain ⟨listing, hlisted, hcontents⟩ := hf.archive
  exact ⟨hf.tag, hf.resolved.grow hdone, ⟨arch, hmachine.grow hdone, hasset⟩,
    hf.commands.trans (commands_after h argv scope k), listing, hdone hlisted, hcontents⟩

theorem Late.after (hl : Late env tmpDir args version assetName files h)
    (hscope : ∀ path, scope path = true →
      inside tmpDir path = true ∨ path ∈ env.installed ∧
        (path = env.envPath → files env.envPath = none))
    (hout : inside tmpDir env.envPath = false) :
    Late env tmpDir args version assetName files (h.after argv scope k) := by
  constructor
  · intro path hnot hpath
    have hno : scope path = false := by
      by_contra hyes
      rcases hscope path (by simpa using hyes) with hin | ⟨hm, -⟩
      · rw [hin] at hpath
        cases hpath
      · exact hnot hm
    rw [files_after hno, hl.elsewhere path hnot hpath]
  · intro file hfile
    have hno : scope env.envPath = false := by
      by_contra hyes
      rcases hscope env.envPath (by simpa using hyes) with hin | ⟨-, hnone⟩
      · rw [hin] at hout
        cases hout
      · rw [hnone rfl] at hfile
        cases hfile
    rw [files_after hno, hl.envFile file hfile]
  · exact hl.fetched.after

theorem Early.keeps (happart : Apart env tmpDir) (he : Early env tmpDir files h) :
    Keeps env tmpDir args files h := by
  have henv : env.envPath ∈ env.installed := by simp [Env.installed]
  refine ⟨fun path _ hpath => he.outside path hpath, ?_, ?_⟩
  · intro file hfile
    rw [he.outside _ (happart.outside _ henv), hfile]
  · rintro (⟨path, hm, hne⟩ | ⟨argv, hm, hactive⟩)
    · exact absurd (he.outside path (happart.outside path hm)) hne
    · exact absurd hactive (he.quiet argv hm)

theorem Late.keeps (hl : Late env tmpDir args version assetName files h) :
    Keeps env tmpDir args files h :=
  ⟨hl.elsewhere, hl.envFile, fun _ => ⟨version, assetName, hl.fetched⟩⟩

/-- A command that writes into the temporary directory only. -/
theorem command_early (happart : Apart env tmpDir) (he : Early env tmpDir files h)
    (hseen : Seen cmds outs h) (hscope : ∀ path, scope path = true → inside tmpDir path = true)
    (hargv : argv ∉ activation env) :
    Passes (Keeps env tmpDir args files)
      (fun h' k => Early env tmpDir files h' ∧ Seen cmds outs h' ∧
        (k.status = 0 → Seen (cmds ++ [argv]) ((argv, k.stdout) :: outs) h'))
      (command argv scope) h :=
  passes_command (he.keeps happart) fun _ =>
    ⟨(he.after hscope hargv).keeps happart, he.after hscope hargv, hseen.after, hseen.next⟩

theorem downloadToFile_early (happart : Apart env tmpDir) (he : Early env tmpDir files h)
    (hseen : Seen cmds outs h) {url destination label : String}
    (hdestination : inside tmpDir destination = true) :
    Passes (Keeps env tmpDir args files) (fun h' _ => Early env tmpDir files h' ∧
      Seen (cmds ++ [[env.curl, "-fsSL", url, "-o", destination]]) outs h')
      (downloadToFile env url destination label) h := by
  have hscope : ∀ path, (path == destination) = true → inside tmpDir path = true := by
    intro path hpath
    rw [beq_iff_eq] at hpath
    rw [hpath, hdestination]
  refine passes_bind (command_early happart he hseen hscope (by simp [activation])) ?_
  rintro h' k hs ⟨he', -, hnext⟩
  exact passes_failIf hs fun hzero => ⟨he', (hnext (not_not.mp hzero)).forget⟩

theorem validateArchiveContract_early (happart : Apart env tmpDir)
    (he : Early env tmpDir files h) (hseen : Seen cmds outs h) {archivePath contentsFile : String}
    (hcontents : inside tmpDir contentsFile = true) :
    Passes (Keeps env tmpDir args files) (fun h' _ => Early env tmpDir files h' ∧
      ∃ listing, archiveContents listing = env.binaryName ∧
        Seen (cmds ++ [[env.unzip, "-Z1", archivePath]])
          (([env.unzip, "-Z1", archivePath], listing) :: outs) h')
      (validateArchiveContract env archivePath contentsFile) h := by
  have hscope : ∀ path, (path == contentsFile) = true → inside tmpDir path = true := by
    intro path hpath
    rw [beq_iff_eq] at hpath
    rw [hpath, hcontents]
  refine passes_bind (command_early happart he hseen hscope (by simp [activation])) ?_
  rintro h' k hs ⟨he', -, hnext⟩
  refine passes_bind (passes_failIf (P := fun h'' _ => h'' = h' ∧ k.status = 0) hs
    fun hzero => ⟨rfl, not_not.mp hzero⟩) ?_
  rintro h'' ⟨⟩ hs' ⟨rfl, hzero⟩
  exact passes_failIf hs' fun hlist => ⟨he', k.stdout, not_not.mp hlist, hnext hzero⟩

theorem fetchRelease_early (happart : Apart env tmpDir) (he : Early env tmpDir files h)
    (hseen : Seen [] outs h) :
    Passes (Keeps env tmpDir args files) (fun h' _ => Early env tmpDir files h' ∧
      ∃ listing, archiveContents listing = env.binaryName ∧
        Seen (fetches env tmpDir version assetName)
          (([env.unzip, "-Z1", tmpDir ++ "/" ++ assetName], listing) :: outs) h')
      (fetchRelease env tmpDir version assetName) h := by
  unfold fetchRelease
  refine passes_bind (downloadToFile_early happart he hseen (inside_append tmpDir _)) ?_
  rintro h₁ ⟨⟩ - ⟨he₁, hseen₁⟩
  refine passes_bind (validateArchiveContract_early happart he₁ hseen₁ (inside_append tmpDir _)) ?_
  rintro h₂ ⟨⟩ - ⟨he₂, listing, hlisting, hseen₂⟩
  refine passes_bind (command_early happart he₂ hseen₂ (fun path => inside_unpacked)
    (by simp [activation])) ?_
  rintro h₃ k hs₃ ⟨he₃, -, hnext⟩
  refine passes_bind (passes_failIf (P := fun h' _ => h' = h₃ ∧ k.status = 0) hs₃
    fun hzero => ⟨rfl, not_not.mp hzero⟩) ?_
  rintro h₃ ⟨⟩ - ⟨rfl, hzero⟩
  refine passes_bind (downloadToFile_early happart he₃ (hnext hzero).forget
    (inside_append tmpDir _)) ?_
  rintro h₄ ⟨⟩ - ⟨he₄, hseen₄⟩
  refine (downloadToFile_early happart he₄ hseen₄ (inside_append tmpDir _)).mono ?_
  rintro h₅ ⟨⟩ - ⟨he₅, hseen₅⟩
  exact ⟨he₅, listing, hlisting, hseen₅⟩

/-- A copy to an installed path. -/
theorem installFile_late (hl : Late env tmpDir args version assetName files h)
    (hseen : Seen cmds outs h) {options : List String} {mode : ℕ} {source target : String}
    (htarget : target ∈ env.installed) (hnew : target = env.envPath → files env.envPath = none)
    (hout : inside tmpDir env.envPath = false) :
    Passes (Keeps env tmpDir args files)
      (fun h' _ => Late env tmpDir args version assetName files h' ∧
        Seen (cmds ++ [[env.install] ++ options ++ [source, target]]) outs h' ∧
        (∃ content, h'.files target = some ⟨content, mode⟩) ∧
        ∀ path, path ≠ target → h'.files path = h.files path)
      (installFile env options mode source target) h := by
  unfold installFile
  refine passes_bind (P := fun h' status => status = 0 →
      Late env tmpDir args version assetName files h' ∧
      Seen (cmds ++ [[env.install] ++ options ++ [source, target]]) outs h' ∧
      (∃ content, h'.files target = some ⟨content, mode⟩) ∧
      ∀ path, path ≠ target → h'.files path = h.files path)
    (Prog.always_lift (Prog.always_atomic hl.keeps ?_)) ?_
  · intro k
    cases hsource : h.files source with
    | none => exact ⟨hl.keeps, fun hzero => by simp at hzero⟩
    | some file =>
      have hscope : ∀ path, (path == target) = true →
          inside tmpDir path = true ∨ path ∈ env.installed ∧
            (path = env.envPath → files env.envPath = none) := by
        intro path hpath
        rw [beq_iff_eq] at hpath
        exact Or.inr ⟨hpath ▸ htarget, fun he => hnew (hpath ▸ he)⟩
      refine ⟨(hl.after hscope hout).keeps, fun hzero => ⟨hl.after hscope hout, ?_, ?_, ?_⟩⟩
      · exact (Seen.next (k := { k with left := _ }) hseen hzero).forget
      · exact ⟨file.content, by simp [Host.after, show k.status = 0 from hzero]⟩
      · intro path hne
        exact files_after (by simpa using hne)
  · rintro h' status hs hP
    split
    next hzero => exact passes_pure hs (hP hzero)
    next => exact passes_throw hs

/-- A command that writes no file. -/
theorem simple_late (hl : Late env tmpDir args version assetName files h) (hseen : Seen cmds outs h)
    (hout : inside tmpDir env.envPath = false) :
    Passes (Keeps env tmpDir args files)
      (fun h' _ => Late env tmpDir args version assetName files h' ∧
        Seen (cmds ++ [argv]) outs h' ∧ h'.files = h.files)
      (simple argv nowhere) h :=
  passes_simple hl.keeps (fun _ => (hl.after (by simp [nowhere]) hout).keeps) fun _ hzero =>
    ⟨hl.after (by simp [nowhere]) hout, (hseen.next hzero).forget, by simp [Host.after, nowhere]⟩

/-- The files are where the service takes them from. -/
structure Placed (env : Env) (files : String → Option HostFile) (h : Host) : Prop where
  binary : ∃ content, h.files env.binaryPath = some ⟨content, 0o755⟩
  serviceUnit : ∃ content, h.files env.serviceUnitPath = some ⟨content, 0o644⟩
  envFile : ∃ file, h.files env.envPath = some file ∧
    (files env.envPath = some file ∨ files env.envPath = none ∧ file.mode = 0o644)

theorem installEnv_late (hl : Late env tmpDir args version assetName files h)
    (hseen : Seen cmds outs h) (hout : inside tmpDir env.envPath = false)
    (hsame : h.files env.envPath = files env.envPath)
    {template : String} :
    Passes (Keeps env tmpDir args files)
      (fun h' _ => Late env tmpDir args version assetName files h' ∧
        Seen (cmds ++ if (files env.envPath).isSome then [] else
          [[env.install, "-D", "-m", "644", template, env.envPath]]) outs h' ∧
        (∀ path, path ≠ env.envPath → h'.files path = h.files path) ∧
        ∃ file, h'.files env.envPath = some file ∧
          (files env.envPath = some file ∨ files env.envPath = none ∧ file.mode = 0o644))
      (installEnv env template) h := by
  unfold installEnv isFile
  refine passes_bind (P := fun h' preserved => h' = h ∧ preserved = (h.files env.envPath).isSome)
    (Prog.always_lift (Prog.always_atomic hl.keeps fun _ => ⟨hl.keeps, rfl, rfl⟩)) ?_
  rintro h' preserved hs ⟨rfl, rfl⟩
  rw [hsame]
  cases hfile : files env.envPath with
  | some file =>
    refine passes_pure hs ⟨hl, ?_, fun _ _ => rfl, file, hsame.trans hfile, Or.inl rfl⟩
    simpa using hseen
  | none =>
    have henv : env.envPath ∈ env.installed := by simp [Env.installed]
    refine (installFile_late hl hseen henv (fun _ => hfile) hout).mono ?_
    rintro h' ⟨⟩ - ⟨hl', hseen', ⟨content, hcontent⟩, hothers⟩
    exact ⟨hl', hseen', hothers, ⟨content, 0o644⟩, hcontent, Or.inr ⟨rfl, rfl⟩⟩

theorem copyRelease_late (happart : Apart env tmpDir) (he : Early env tmpDir files h)
    (hf : Fetched env tmpDir args version assetName h) (hseen : Seen cmds outs h) :
    Passes (Keeps env tmpDir args files)
      (fun h' _ => Late env tmpDir args version assetName files h' ∧
        Seen (cmds ++ copies env tmpDir (files env.envPath).isSome) outs h' ∧ Placed env files h')
      (copyRelease env tmpDir) h := by
  have hbinary : env.binaryPath ∈ env.installed := by simp [Env.installed]
  have hunit : env.serviceUnitPath ∈ env.installed := by simp [Env.installed]
  have henv : env.envPath ∈ env.installed := by simp [Env.installed]
  have hout := happart.outside _ henv
  obtain ⟨⟨hbinaryUnit, hbinaryEnv⟩, hunitEnv⟩ :
      (env.binaryPath ≠ env.serviceUnitPath ∧ env.binaryPath ≠ env.envPath) ∧
        env.serviceUnitPath ≠ env.envPath := by
    simpa [Env.installed] using happart.distinct
  have hl : Late env tmpDir args version assetName files h :=
    ⟨fun path _ hpath => he.outside path hpath,
      fun file hfile => (he.outside _ hout).trans hfile, hf⟩
  unfold copyRelease
  refine passes_bind (simple_late hl hseen hout) ?_
  rintro h₁ _ - ⟨hl₁, hseen₁, hsame₁⟩
  refine passes_bind (installFile_late hl₁ hseen₁ hbinary (absurd · hbinaryEnv) hout) ?_
  rintro h₂ ⟨⟩ - ⟨hl₂, hseen₂, hplaced₂, hsame₂⟩
  refine passes_bind (installFile_late hl₂ hseen₂ hunit (absurd · hunitEnv) hout) ?_
  rintro h₃ ⟨⟩ - ⟨hl₃, hseen₃, hplaced₃, hsame₃⟩
  have hkept : h₃.files env.envPath = files env.envPath := by
    rw [hsame₃ _ (Ne.symm hunitEnv), hsame₂ _ (Ne.symm hbinaryEnv), hsame₁, he.outside _ hout]
  refine (installEnv_late hl₃ hseen₃ hout hkept).mono ?_
  rintro h₄ ⟨⟩ - ⟨hl₄, hseen₄, hsame₄, henvFile⟩
  refine ⟨hl₄, ?_, ?_, ?_, henvFile⟩
  · simpa [copies] using hseen₄
  · rw [hsame₄ _ hbinaryEnv, hsame₃ _ hbinaryUnit]
    exact hplaced₂
  · rw [hsame₄ _ hunitEnv]
    exact hplaced₃

theorem Placed.same {h' : Host} (hp : Placed env files h)
    (hsame : ∀ path ∈ env.installed, h'.files path = h.files path) : Placed env files h' := by
  constructor
  · rw [hsame env.binaryPath (by simp [Env.installed])]
    exact hp.binary
  · rw [hsame env.serviceUnitPath (by simp [Env.installed])]
    exact hp.serviceUnit
  · rw [hsame env.envPath (by simp [Env.installed])]
    exact hp.envFile

theorem activate_late (hl : Late env tmpDir args version assetName files h)
    (hseen : Seen cmds outs h) (hout : inside tmpDir env.envPath = false) :
    Passes (Keeps env tmpDir args files)
      (fun h' _ => Late env tmpDir args version assetName files h' ∧
        Seen (cmds ++ activation env) outs h' ∧ h'.files = h.files)
      (activate env) h := by
  unfold activate
  refine passes_bind (simple_late hl hseen hout) ?_
  rintro h₁ _ - ⟨hl₁, hseen₁, hsame₁⟩
  refine passes_bind (simple_late hl₁ hseen₁ hout) ?_
  rintro h₂ _ - ⟨hl₂, hseen₂, hsame₂⟩
  refine passes_bind (simple_late hl₂ hseen₂ hout) ?_
  rintro h₃ _ - ⟨hl₃, hseen₃, hsame₃⟩
  have hl₄ : ∀ argv k, Late env tmpDir args version assetName files (h₃.after argv nowhere k) :=
    fun _ _ => hl₃.after (by simp [nowhere]) hout
  refine passes_bind (passes_command (P := fun h' k =>
      Late env tmpDir args version assetName files h' ∧
        (k.status = 0 → Seen (cmds ++ activation env) outs h') ∧ h'.files = h₃.files) hl₃.keeps
    fun k => ⟨(hl₄ _ k).keeps, hl₄ _ k, fun hzero => ?_, by simp [Host.after, nowhere]⟩) ?_
  · simpa [activation] using (hseen₃.next (k := k) hzero).forget
  · rintro h₄ k hs ⟨hl', hnext, hsame₄⟩
    refine passes_failIf hs fun hzero => ⟨hl', hnext (not_not.mp hzero), ?_⟩
    rw [hsame₄, hsame₃, hsame₂, hsame₁]

/-- The release is in place, and its service runs. -/
structure Complete (env : Env) (tmpDir : String) (args : List String) (version assetName : String)
    (files : String → Option HostFile) (h : Host) : Prop where
  late : Late env tmpDir args version assetName files h
  commands : List.Sublist (fetches env tmpDir version assetName ++
    copies env tmpDir (files env.envPath).isSome ++ activation env) (h.done.map Prod.fst)
  placed : Placed env files h

theorem installRelease_complete (happart : Apart env tmpDir) (he : Early env tmpDir files h)
    (hversion : GoStrings.hasPrefix version "v" = true) (hresolved : Resolved env args version h)
    {arch : String} (hmachine : Machine env arch h)
    (hasset : assetNameForArch env arch = some assetName) :
    Passes (Keeps env tmpDir args files)
      (fun h' _ => Complete env tmpDir args version assetName files h')
      (installRelease env tmpDir version assetName) h := by
  have hout := happart.outside env.envPath (by simp [Env.installed])
  have hsofar : Seen [] h.done h := ⟨List.nil_sublist _, fun _ hm => hm⟩
  unfold installRelease
  refine passes_bind (fetchRelease_early happart he hsofar) ?_
  rintro h₁ ⟨⟩ - ⟨he₁, listing, hlisting, hseen₁⟩
  have hdone := hseen₁.forget.told
  have hf : Fetched env tmpDir args version assetName h₁ :=
    ⟨hversion, hresolved.grow hdone, ⟨arch, hmachine.grow hdone, hasset⟩, hseen₁.ran, listing,
      hseen₁.told List.mem_cons_self, hlisting⟩
  refine passes_bind (copyRelease_late happart he₁ hf hseen₁) ?_
  rintro h₂ ⟨⟩ - ⟨hl₂, hseen₂, hplaced₂⟩
  refine (activate_late hl₂ hseen₂ hout).mono ?_
  rintro h₃ ⟨⟩ - ⟨hl₃, hseen₃, hsame₃⟩
  exact ⟨hl₃, hseen₃.ran, hplaced₂.same fun path _ => by rw [hsame₃]⟩

theorem Keeps.after (happart : Apart env tmpDir) (hkeeps : Keeps env tmpDir args files h)
    (hscope : ∀ path, scope path = true → inside tmpDir path = true)
    (hargv : argv ∉ activation env) : Keeps env tmpDir args files (h.after argv scope k) := by
  have hsame : ∀ path, inside tmpDir path = false →
      (h.after argv scope k).files path = h.files path := by
    intro path hpath
    apply files_after
    by_contra hyes
    rw [hscope path (by simpa using hyes)] at hpath
    cases hpath
  constructor
  · intro path hnot hpath
    rw [hsame path hpath, hkeeps.elsewhere path hnot hpath]
  · intro file hfile
    rw [hsame _ (happart.outside _ (by simp [Env.installed])), hkeeps.envFile file hfile]
  · intro htouched
    have hbefore : (∃ path ∈ env.installed, h.files path ≠ files path) ∨
        ∃ argv ∈ h.done.map Prod.fst, argv ∈ activation env := by
      rcases htouched with ⟨path, hm, hne⟩ | ⟨other, hm, hactive⟩
      · rw [hsame path (happart.outside path hm)] at hne
        exact Or.inl ⟨path, hm, hne⟩
      · unfold Host.after at hm
        dsimp only at hm
        split at hm
        · rw [List.map_append] at hm
          rcases List.mem_append.mp hm with hm | hm
          · exact Or.inr ⟨other, hm, hactive⟩
          · rw [List.mem_singleton.mp hm] at hactive
            exact absurd hactive hargv
        · exact Or.inr ⟨other, hm, hactive⟩
    obtain ⟨version, assetName, hf⟩ := hkeeps.fetched hbefore
    exact ⟨version, assetName, hf.after⟩

/-- The trap at the end of the script removes nothing that was installed. -/
theorem Complete.after (happart : Apart env tmpDir)
    (hc : Complete env tmpDir args version assetName files h)
    (hscope : ∀ path, scope path = true → inside tmpDir path = true) :
    Complete env tmpDir args version assetName files (h.after argv scope k) := by
  have hout := happart.outside env.envPath (by simp [Env.installed])
  refine ⟨hc.late.after (fun path hpath => Or.inl (hscope path hpath)) hout,
    hc.commands.trans (commands_after h argv scope k), hc.placed.same fun path hm => ?_⟩
  apply files_after
  by_contra hyes
  have hin := happart.outside path hm
  rw [hscope path (by simpa using hyes)] at hin
  cases hin

theorem installVersion_complete (happart : Apart env tmpDir) (he : Early env tmpDir files h)
    (hresolved : Resolved env args version h) {arch : String} (hmachine : Machine env arch h) :
    Passes (Keeps env tmpDir args files)
      (fun h' _ => ∃ version assetName, Complete env tmpDir args version assetName files h')
      (installVersion env tmpDir arch version) h := by
  unfold installVersion
  refine passes_bind (passes_failIf
    (P := fun h' _ => h' = h ∧ GoStrings.hasPrefix version "v" = true) (he.keeps happart)
    fun hv => ⟨rfl, by simpa using hv⟩) ?_
  rintro h₁ ⟨⟩ hs₁ ⟨rfl, hversion⟩
  cases hasset : assetNameForArch env arch with
  | none => exact passes_fail hs₁
  | some assetName =>
    have hmade : ∀ k, Early env tmpDir files (h₁.after [env.mktemp, "-d"] nowhere k) :=
      fun k => he.after (by simp [nowhere]) (by simp [activation])
    refine passes_bind (passes_simple
      (P := fun h' _ => Early env tmpDir files h' ∧ h₁.done ⊆ h'.done) hs₁
      (fun k => (hmade k).keeps happart) fun k _ => ⟨hmade k, done_after _ _ _ k⟩) ?_
    rintro h₂ _ - ⟨he₂, hdone⟩
    refine passes_bind (Prog.always_lift (installRelease_complete happart he₂ hversion
      (hresolved.grow hdone) (hmachine.grow hdone) hasset)) ?_
    rintro h₃ result hs₃ hresult
    have hrm : (["rm", "-rf", tmpDir] : List String) ∉ activation env := by simp [activation]
    refine passes_bind (passes_command (P := fun h' _ => result = .ok () →
        Complete env tmpDir args version assetName files h') hs₃ fun k =>
      ⟨hs₃.after happart (fun _ hpath => hpath) hrm, fun hok => ?_⟩) ?_
    · subst hok
      exact hresult.after happart fun _ hpath => hpath
    · rintro h₄ _ hs₄ hcomplete
      cases result with
      | ok value => exact passes_pure hs₄ ⟨version, assetName, hcomplete rfl⟩
      | error stop => exact passes_throw hs₄

/-- The script only looks at the host, or ends, and what it goes on with is as `P` says. -/
def Looks (env : Env) (tmpDir : String) (args : List String) (files : String → Option HostFile)
    {α : Type} (P : Host → α → Prop) (script : Script α) : Prop :=
  ∀ h, Early env tmpDir files h → Passes (Keeps env tmpDir args files)
    (fun h' value => Early env tmpDir files h' ∧ h.done ⊆ h'.done ∧ P h' value) script h

/-- Nothing is said of the value. -/
def anything {α : Type} : Host → α → Prop := fun _ _ => True

theorem looks_bind {α β : Type} {P : Host → β → Prop} {Q : Host → α → Prop} {first : Script β}
    {rest : β → Script α} (hf : Looks env tmpDir args files P first)
    (hr : ∀ h value, Early env tmpDir files h → P h value → Passes (Keeps env tmpDir args files)
      (fun h' result => Early env tmpDir files h' ∧ h.done ⊆ h'.done ∧ Q h' result)
      (rest value) h) : Looks env tmpDir args files Q (first >>= rest) := by
  intro h he
  refine passes_bind (hf h he) ?_
  rintro h₁ value - ⟨he₁, hdone₁, hP⟩
  refine (hr h₁ value he₁ hP).mono ?_
  rintro h₂ result - ⟨he₂, hdone₂, hQ⟩
  exact ⟨he₂, List.Subset.trans hdone₁ hdone₂, hQ⟩

theorem looks_pure {α : Type} {P : Host → α → Prop} {value : α} (happart : Apart env tmpDir)
    (he : Early env tmpDir files h) (hP : P h value) : Passes (Keeps env tmpDir args files)
      (fun h' result => Early env tmpDir files h' ∧ h.done ⊆ h'.done ∧ P h' result)
      (pure value) h :=
  passes_pure (he.keeps happart) ⟨he, fun _ hm => hm, hP⟩

theorem looks_failIf {bad : Prop} [Decidable bad] {message : String}
    (happart : Apart env tmpDir) :
    Looks env tmpDir args files anything (failIf bad message) :=
  fun _ he => passes_failIf (he.keeps happart) fun _ => ⟨he, fun _ hm => hm, trivial⟩

/-- The answer of a command that succeeded is kept. -/
def Told (argv : List String) (h : Host) (k : Answer) : Prop :=
  k.status = 0 → (argv, k.stdout) ∈ h.done

theorem looks_command (happart : Apart env tmpDir) (hargv : argv ∉ activation env) :
    Looks env tmpDir args files (Told argv) (command argv nowhere) := by
  intro h he
  have hafter : ∀ k, Early env tmpDir files (h.after argv nowhere k) :=
    fun k => he.after (by simp [nowhere]) hargv
  refine passes_command (he.keeps happart) fun k =>
    ⟨(hafter k).keeps happart, hafter k, done_after h argv nowhere k, fun hzero => ?_⟩
  simp [Host.after, hzero]

theorem looks_simple (happart : Apart env tmpDir) (hargv : argv ∉ activation env) :
    Looks env tmpDir args files (fun h k => (argv, k.stdout) ∈ h.done)
      (simple argv nowhere) := by
  unfold simple
  refine looks_bind (looks_command happart hargv) fun h k he htold => ?_
  split
  next hzero => exact looks_pure happart he (htold hzero)
  next => exact passes_throw (he.keeps happart)

theorem requireCommands_looks (happart : Apart env tmpDir) (required : List (String × String)) :
    Looks env tmpDir args files anything (requireCommands env required) := by
  induction required with
  | nil => exact fun _ he => looks_pure happart he trivial
  | cons first rest ih =>
    refine looks_bind (P := anything) (fun h he => ?_) fun h _ he _ => ih h he
    unfold requireCommand
    split
    next => exact looks_pure happart he trivial
    next => exact passes_fail (he.keeps happart)

theorem requireLinux_looks (happart : Apart env tmpDir) :
    Looks env tmpDir args files anything (requireLinux env) :=
  looks_bind (looks_simple happart (by simp [activation])) fun h _ he _ =>
    looks_failIf happart h he

theorem detectArch_looks (happart : Apart env tmpDir) :
    Looks env tmpDir args files (fun h arch => Machine env arch h) (detectArch env) := by
  refine looks_bind (looks_simple happart (by simp [activation])) fun h k he hm => ?_
  split
  next arch harch => exact looks_pure happart he ⟨k.stdout, hm, harch⟩
  next => exact passes_fail (he.keeps happart)

theorem requireSystemd_looks (happart : Apart env tmpDir) :
    Looks env tmpDir args files anything (requireSystemd env) := by
  refine looks_bind (looks_failIf happart) fun h₁ _ he₁ _ => ?_
  exact looks_bind (looks_command happart (by simp [activation]))
    (fun h₂ _ he₂ _ => looks_failIf happart h₂ he₂) h₁ he₁

theorem requireRoot_looks (happart : Apart env tmpDir) :
    Looks env tmpDir args files anything (requireRoot env) := by
  refine looks_bind (looks_command happart (by simp [activation])) fun h k he _ => ?_
  split
  next => exact looks_failIf happart h he
  next => exact looks_pure happart he trivial

theorem latestVersion_looks (happart : Apart env tmpDir) :
    Looks env tmpDir [] files (fun h version => Resolved env [] version h)
      (latestVersion env) := by
  refine looks_bind (looks_command happart (by simp [activation])) fun h₁ k he₁ htold => ?_
  generalize hversion : latestTag (captured k.stdout) = version
  refine passes_bind (passes_failIf (P := fun h' _ => h' = h₁ ∧ k.status = 0)
    (he₁.keeps happart) fun hzero => ⟨rfl, not_not.mp hzero⟩) ?_
  rintro h₂ ⟨⟩ - ⟨rfl, hzero⟩
  have hresolved : Resolved env [] version h₂ :=
    Or.inr ⟨rfl, k.stdout, htold hzero, hversion.symm⟩
  refine passes_bind (passes_failIf (P := fun h' _ => h' = h₂) (he₁.keeps happart)
    fun _ => rfl) ?_
  rintro h₃ ⟨⟩ - rfl
  exact looks_pure happart he₁ hresolved

theorem resolveVersion_looks (happart : Apart env tmpDir) (args : List String) :
    Looks env tmpDir args files (fun h version => Resolved env args version h)
      (resolveVersion env args) := by
  unfold resolveVersion
  split
  next => exact latestVersion_looks happart
  next tag =>
    intro h he
    split
    next => exact looks_pure happart he (Or.inl ⟨tag, rfl, rfl⟩)
    next => exact passes_fail (he.keeps happart)
  next => exact fun _ he => passes_throw (he.keeps happart)

theorem main_complete (happart : Apart env tmpDir) (he : Early env tmpDir files h)
    (args : List String) :
    Passes (Keeps env tmpDir args files) (fun h' _ =>
      (args.head? = some "-h" ∨ args.head? = some "--help") ∨
        ∃ version assetName, Complete env tmpDir args version assetName files h')
      (main env tmpDir args) h := by
  unfold main
  split
  next hhelp => exact passes_pure (he.keeps happart) (Or.inl hhelp)
  next =>
    refine passes_bind (requireCommands_looks happart _ h he) ?_
    rintro h₁ _ - ⟨he₁, -, -⟩
    refine passes_bind (requireLinux_looks happart h₁ he₁) ?_
    rintro h₂ _ - ⟨he₂, -, -⟩
    refine passes_bind (detectArch_looks happart h₂ he₂) ?_
    rintro h₃ arch - ⟨he₃, -, hmachine⟩
    refine passes_bind (requireSystemd_looks happart h₃ he₃) ?_
    rintro h₄ _ - ⟨he₄, hdone₄, -⟩
    refine passes_bind (requireRoot_looks happart h₄ he₄) ?_
    rintro h₅ _ - ⟨he₅, hdone₅, -⟩
    refine passes_bind (resolveVersion_looks happart args h₅ he₅) ?_
    rintro h₆ version - ⟨he₆, hdone₆, hresolved⟩
    have hthere := ((hmachine.grow hdone₄).grow hdone₅).grow hdone₆
    exact (installVersion_complete happart he₆ hresolved hthere).mono
      fun _ _ _ hcomplete => Or.inr hcomplete

end Stages

/-- Wherever a run of the installer is cut off, and whatever its commands do: the files that it
does not install stay, and so does an environment file that is there; nothing is installed, and
the service is left alone, before one whole release has been fetched, with the asset for the
machine, whose archive lists the binary only. A run that comes to its end has installed it and
restarted the service, in this order. -/
theorem installer_keeps {env : Env} {tmpDir : String} (happart : Apart env tmpDir)
    (args : List String) (files : String → Option HostFile) :
    (∀ rest h, (main env tmpDir args).run.Runs ⟨files, []⟩ rest h → Keeps env tmpDir args files h) ∧
      ∀ h, (main env tmpDir args).run.Runs ⟨files, []⟩ (.ret (.ok ())) h →
        args.head? ≠ some "-h" → args.head? ≠ some "--help" →
          Installed env tmpDir args files h := by
  have he : Early env tmpDir files ⟨files, []⟩ := ⟨fun _ _ => rfl, by simp⟩
  have hmain := main_complete happart he args
  refine ⟨fun rest h runs => hmain.cut runs, fun h runs hshort hlong => ?_⟩
  rcases hmain.returned runs with (hhelp | hhelp) | ⟨version, assetName, hc⟩
  · exact absurd hhelp hshort
  · exact absurd hhelp hlong
  · exact ⟨⟨version, assetName, hc.late.fetched, hc.commands⟩, hc.placed.binary,
      hc.placed.serviceUnit, hc.placed.envFile⟩

/-- A host where nothing is set, every command is found and systemd runs. -/
def linuxHost : Env := .load (fun _ => none) (fun _ => true) (fun _ => true)

def configured : String → Option HostFile := fun path =>
  if path = "/etc/auto-deploy.env" then some ⟨"DEPLOY_QUEUE_MAX=3\n", 0o600⟩ else none

/-- Every command succeeds, and these are the first outputs of a run. -/
def succeeding (n : ℕ) : Answer :=
  ⟨0, ["Linux\n", "x86_64\n", "", "0\n", "", "", "auto-deploy\n"].getD n "",
    fun _ => some ⟨"", 0o600⟩⟩

def afterInstall : Prog Host Answer Unit (Except Exit Unit) × Host :=
  (main linuxHost "/tmp/tmp.a" ["v1.2.3"]).run.cutOff succeeding 40 ⟨configured, []⟩

theorem installer_keeps_configured : ∃ h,
    (main linuxHost "/tmp/tmp.a" ["v1.2.3"]).run.Runs ⟨configured, []⟩ (.ret (.ok ())) h ∧
      Installed linuxHost "/tmp/tmp.a" ["v1.2.3"] configured h := by
  have hended : ∃ value, afterInstall.1 = .ret value ∧ value.toOption = some () := by
    have hret : (match afterInstall.1 with
        | .ret value => value.toOption
        | .act _ _ _ => none) = some () := by
      decide +kernel
    split at hret
    next value hvalue => exact ⟨value, hvalue, hret⟩
    next => cases hret
  obtain ⟨value, hvalue, hok⟩ := hended
  have runs : (main linuxHost "/tmp/tmp.a" ["v1.2.3"]).run.Runs ⟨configured, []⟩
      afterInstall.1 afterInstall.2 :=
    Prog.runs_cutOff _ _ _ _
  cases value with
  | error stop => cases hok
  | ok ended =>
    rw [hvalue] at runs
    refine ⟨afterInstall.2, runs, ?_⟩
    exact (installer_keeps (by decide) ["v1.2.3"] configured).2 afterInstall.2 runs (by decide)
      (by decide)

end AutoDeploy.Installer
