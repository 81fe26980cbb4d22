import AutoDeploy.Download
import AutoDeploy.GoIO
import AutoDeploy.GoStrconv

namespace AutoDeploy

open Interleaving

def parseContentLength (b : List UInt8) : Int64 :=
  if b = [] then -1
  else match GoStrconv.parseInt b with
    | .error _ => -1
    | .ok n => n

/-- What one download works on: the temporary file, the body that is left to read, and the
context. The reader that counts the bytes hands every result of the body on as it is. -/
structure DownloadWorld where
  tmp : Option Content
  body : GoIO.Reader GoError
  ctxCanceled : Bool

/-- What one call takes from outside. `cancel` says that the context is canceled before it. -/
structure DownloadAnswer where
  cancel : Bool
  createErr : Option GoError
  writes : GoIO.Writes GoError
  closeErr : Option GoError
  removeErr : Option GoError

abbrev Downloading := Prog DownloadWorld DownloadAnswer Empty

def DownloadWorld.meanwhile (k : DownloadAnswer) (w : DownloadWorld) : DownloadWorld :=
  { w with ctxCanceled := w.ctxCanceled || k.cancel }

def downloadCall {α : Type} (run : DownloadWorld → DownloadAnswer → α × DownloadWorld) :
    Downloading α :=
  Prog.atomic fun w k => ((run (w.meanwhile k) k).1, (run (w.meanwhile k) k).2, [])

/-- `os.Create`. -/
def createFile : Downloading (Option GoError) :=
  downloadCall fun w k =>
    match k.createErr with
    | some err => (some err, w)
    | none => (none, { w with tmp := some [] })

/-- `io.Copy` of the body to the file, behind a limit. -/
def copyFile (limit : Int64) : Downloading (ℕ × Option GoError) :=
  downloadCall fun w k =>
    let copied := GoIO.copy k.writes ⟨w.body, limit.toInt.toNat⟩
    ((copied.stored.length, copied.err),
      { w with tmp := some copied.stored, body := copied.source.reader })

/-- `ctx.Err()`. -/
def DownloadWorld.ctxErr (w : DownloadWorld) : Option GoError :=
  if w.ctxCanceled then some contextCanceled else none

def readCtxErr : Downloading (Option GoError) := downloadCall fun w _ => (w.ctxErr, w)

/-- `f.Close()`. -/
def closeFile : Downloading (Option GoError) := downloadCall fun w k => (k.closeErr, w)

def DownloadWorld.removed (k : DownloadAnswer) (w : DownloadWorld) : DownloadWorld :=
  if k.removeErr = none then { w with tmp := none } else w

/-- `os.Remove`, whose error nobody reads. -/
def removeFile : Downloading Unit := downloadCall fun w k => ((), w.removed k)

def rejectFile (err : GoError) : Downloading (Except GoError ℕ) := do
  removeFile
  return .error err

def incomplete (written : ℕ) (declared : Int64) : String :=
  "download incomplete: wrote " ++ toString written ++ " bytes, expected " ++ toString declared

/-- The declared length is one, and it is not that of the copy. -/
def lengthDiffers (declared : Int64) (written : ℕ) : Bool :=
  decide (0 ≤ declared) && decide ((written : ℤ) ≠ declared.toInt)

/-- What `downloadBinaryContext` does when the copy has failed. -/
def failCopy (declared : Int64) (written : ℕ) (err : GoError) :
    Downloading (Except GoError ℕ) := do
  removeFile
  match ← readCtxErr with
  | some canceled => return .error canceled
  | none =>
    if lengthDiffers declared written then
      return .error (.errorf (incomplete written declared ++ ": ") err)
    else return .error (.errorf "write tmp file: " err)

/-- What `downloadBinaryContext` does when the copy has come to its end. -/
def acceptCopy (declared maxBytes : Int64) (written : ℕ) : Downloading (Except GoError ℕ) := do
  match ← readCtxErr with
  | some canceled => rejectFile canceled
  | none =>
    if maxBytes.toInt < written then
      rejectFile (.new ("download too large: wrote " ++ toString written ++ " bytes, max " ++
        toString maxBytes))
    else if lengthDiffers declared written then rejectFile (.new (incomplete written declared))
    else
      match ← closeFile with
      | some err => rejectFile (.errorf "write tmp file: " err)
      | none => return .ok written

/-- `max(maxBytes+1, maxBytes)`. -/
def probeLimit (maxBytes : Int64) : Int64 :=
  if maxBytes + 1 < maxBytes then maxBytes else maxBytes + 1

/-- `downloadBinaryContext` from the response on, which declared this length. -/
def saveBody (declared maxBytes : Int64) : Downloading (Except GoError ℕ) := do
  if maxBytes < 0 then
    return .error (.new ("download too large: invalid max bytes " ++ toString maxBytes))
  else if maxBytes < declared then
    return .error (.new ("download too large: content length " ++ toString declared ++
      " exceeds max " ++ toString maxBytes))
  else
    match ← createFile with
    | some err => return .error (.errorf "create tmp file: " err)
    | none =>
      match ← copyFile (probeLimit maxBytes) with
      | (written, some err) => failCopy declared written err
      | (written, none) => acceptCopy declared maxBytes written

section Limit

variable {maxBytes : Int64}

/-- One byte more than is allowed, or everything where there is no such number. -/
theorem probeLimit_toInt (h : 0 ≤ maxBytes) :
    (probeLimit maxBytes).toInt = min (maxBytes.toInt + 1) (2 ^ 63 - 1) := by
  have hzero := Int64.toInt_zero
  have hone := Int64.toInt_one
  have hpos := Int64.le_iff_toInt_le.mp h
  have hhigh := maxBytes.toInt_lt
  have hsum : (maxBytes + 1).toInt = Int.bmod (maxBytes.toInt + 1) (2 ^ 64) := by
    rw [Int64.toInt_add, hone]
  unfold probeLimit
  by_cases hmax : maxBytes.toInt + 1 < 2 ^ 63
  · have hexact : (maxBytes + 1).toInt = maxBytes.toInt + 1 := by
      rw [hsum]
      apply Int.bmod_eq_of_le <;> omega
    have hnot : ¬ maxBytes + 1 < maxBytes := by
      rw [Int64.lt_iff_toInt_lt]
      omega
    rw [if_neg hnot, hexact]
    omega
  · have hlast : maxBytes.toInt = 2 ^ 63 - 1 := by omega
    have hwrapped : (maxBytes + 1).toInt = -2 ^ 63 := by
      rw [hsum, hlast]
      decide
    have hless : maxBytes + 1 < maxBytes := by
      rw [Int64.lt_iff_toInt_lt]
      omega
    rw [if_pos hless, hlast]
    decide

end Limit

/-- What the download makes of the response, before any fault of its own files: the body ended
without an error, nobody had canceled when the copy ended, and the lengths are right. -/
structure Acceptable (declared maxBytes : Int64) (answers : ℕ → DownloadAnswer)
    (w : DownloadWorld) : Prop where
  ended : w.body.ending = .eof
  uncanceled : w.ctxCanceled = false ∧ ∀ n < 3, (answers n).cancel = false
  size : (w.body.content.length : ℤ) ≤ maxBytes.toInt
  declared : declared < 0 ∨ declared.toInt = w.body.content.length

/-- The create, every write and the close of the temporary file succeed. -/
def FilesWork (answers : ℕ → DownloadAnswer) : Prop :=
  ∀ n, (answers n).createErr = none ∧ (answers n).closeErr = none ∧
    ∀ i, (answers n).writes i = none

def RemovesWork (answers : ℕ → DownloadAnswer) : Prop := ∀ n, (answers n).removeErr = none

section Ends

variable {declared maxBytes : Int64} {answers : ℕ → DownloadAnswer} {w : DownloadWorld}
  {written : ℕ} {err : GoError}

/-- The answers to the calls behind the first one. -/
abbrev later (answers : ℕ → DownloadAnswer) (n : ℕ) : DownloadAnswer := answers (n + 1)

/-- How a run ends that gets these answers. -/
def EndsIn {α : Type} (answers : ℕ → DownloadAnswer) (w : DownloadWorld) (p : Downloading α)
    (Q : DownloadWorld → α → Prop) : Prop :=
  Q (p.alone answers w).state (p.alone answers w).value

theorem endsIn_pure {α : Type} {value : α} {Q : DownloadWorld → α → Prop} :
    EndsIn answers w (pure value) Q ↔ Q w value := Iff.rfl

/-- A call, and then what follows on it. -/
theorem endsIn_call {α β : Type} {run : DownloadWorld → DownloadAnswer → α × DownloadWorld}
    {rest : α → Downloading β} {Q : DownloadWorld → β → Prop} :
    EndsIn answers w (downloadCall run >>= rest) Q ↔
      EndsIn (later answers) (run (w.meanwhile (answers 0)) (answers 0)).2
        (rest (run (w.meanwhile (answers 0)) (answers 0)).1) Q := Iff.rfl

@[simp] theorem meanwhile_tmp (k : DownloadAnswer) : (w.meanwhile k).tmp = w.tmp := rfl

@[simp] theorem meanwhile_body (k : DownloadAnswer) : (w.meanwhile k).body = w.body := rfl

@[simp] theorem removed_body (k : DownloadAnswer) : (w.removed k).body = w.body := by
  unfold DownloadWorld.removed
  split
  next => rfl
  next => rfl

theorem removed_tmp {k : DownloadAnswer} (h : k.removeErr = none) : (w.removed k).tmp = none := by
  unfold DownloadWorld.removed
  rw [if_pos h]

/-- A failure of the download behind the create. -/
def Failed (answers : ℕ → DownloadAnswer) (body : GoIO.Reader GoError) (w : DownloadWorld)
    (result : Except GoError ℕ) : Prop :=
  (∃ err, result = .error err) ∧ (RemovesWork answers → w.tmp = none) ∧ w.body = body

theorem rejectFile_ends : EndsIn answers w (rejectFile err) (Failed answers w.body) := by
  unfold rejectFile removeFile
  rw [endsIn_call, endsIn_pure]
  exact ⟨⟨err, rfl⟩, fun hremoves => removed_tmp (hremoves 0), by simp⟩

theorem failCopy_ends :
    EndsIn answers w (failCopy declared written err) (Failed answers w.body) := by
  unfold failCopy removeFile readCtxErr
  rw [endsIn_call, endsIn_call]
  have hfailed : ∀ err, Failed answers w.body
      (((w.meanwhile (answers 0)).removed (answers 0)).meanwhile (later answers 0))
      (.error err) :=
    fun err => ⟨⟨err, rfl⟩, fun hremoves => removed_tmp (hremoves 0), by simp⟩
  split
  next => exact hfailed _
  next =>
    split
    next => exact hfailed _
    next => exact hfailed _

/-- The checks behind a copy without an error, and the close. -/
structure ChecksPass (declared maxBytes : Int64) (written : ℕ) (w : DownloadWorld) : Prop where
  uncanceled : w.ctxCanceled = false
  size : (written : ℤ) ≤ maxBytes.toInt
  declared : lengthDiffers declared written = false

theorem Failed.earlier {body : GoIO.Reader GoError} {w : DownloadWorld}
    {result : Except GoError ℕ} (h : Failed (later answers) body w result) :
    Failed answers body w result :=
  ⟨h.1, fun hremoves => h.2.1 fun n => hremoves (n + 1), h.2.2⟩

/-- The copy is accepted if the checks pass and the file can be closed, and else it fails. -/
theorem acceptCopy_ends : EndsIn answers w (acceptCopy declared maxBytes written) fun w' result =>
    (result = .ok written ∧ w'.tmp = w.tmp ∧ w'.body = w.body ∧
      ChecksPass declared maxBytes written (w.meanwhile (answers 0))) ∨
    (Failed answers w.body w' result ∧
      (ChecksPass declared maxBytes written (w.meanwhile (answers 0)) →
        (answers 1).closeErr ≠ none)) := by
  have hreject : ∀ err, EndsIn (later answers) (w.meanwhile (answers 0)) (rejectFile err)
      (Failed answers w.body) := by
    intro err
    have hends : EndsIn (later answers) (w.meanwhile (answers 0)) (rejectFile err)
        (Failed (later answers) (w.meanwhile (answers 0)).body) := rejectFile_ends
    exact Failed.earlier hends
  unfold acceptCopy readCtxErr
  rw [endsIn_call]
  split
  next canceled he =>
    refine Or.inr ⟨hreject _, ?_⟩
    intro haccepted
    simp [DownloadWorld.ctxErr, haccepted.uncanceled] at he
  next he =>
    have huncanceled : (w.meanwhile (answers 0)).ctxCanceled = false := by
      simpa [DownloadWorld.ctxErr] using he
    split
    next hlarge =>
      refine Or.inr ⟨hreject _, ?_⟩
      intro haccepted
      have hsize := haccepted.size
      omega
    next hsize =>
      split
      next hlength =>
        refine Or.inr ⟨hreject _, ?_⟩
        intro haccepted
        rw [haccepted.declared] at hlength
        cases hlength
      next hlength =>
        have haccepted : ChecksPass declared maxBytes written (w.meanwhile (answers 0)) :=
          ⟨huncanceled, by omega, by simpa using hlength⟩
        unfold closeFile
        rw [endsIn_call]
        cases hclose : (later answers 0).closeErr with
        | none => exact Or.inl ⟨rfl, rfl, rfl, haccepted⟩
        | some err =>
          have hends : EndsIn (later (later answers))
              ((w.meanwhile (answers 0)).meanwhile (later answers 0))
              (rejectFile (.errorf "write tmp file: " err))
              (Failed (later (later answers)) w.body) := rejectFile_ends
          exact Or.inr ⟨hends.earlier.earlier, fun _ hnone => by cases hnone⟩

end Ends

section Save

variable {declared maxBytes : Int64} {answers : ℕ → DownloadAnswer} {w : DownloadWorld}

/-- What a download does, from the response on. -/
structure Downloads (declared maxBytes : Int64) (answers : ℕ → DownloadAnswer)
    (w w' : DownloadWorld) (result : Except GoError ℕ) : Prop where
  onlyIf : ∀ n, result = .ok n → Acceptable declared maxBytes answers w ∧
    n = w.body.content.length ∧ w'.tmp = some w.body.content
  whenever : Acceptable declared maxBytes answers w → FilesWork answers →
    result = .ok w.body.content.length
  removed : ∀ err, result = .error err → declared ≤ maxBytes → (answers 0).createErr = none →
    RemovesWork answers → w'.tmp = none
  bounded : ∃ taken, w.body.content = taken ++ w'.body.content ∧
    (taken.length : ℤ) ≤ maxBytes.toInt + 1

theorem acceptable_declared (h : Acceptable declared maxBytes answers w) (hmax : 0 ≤ maxBytes) :
    declared ≤ maxBytes := by
  rw [Int64.le_iff_toInt_le] at hmax ⊢
  have hzero := Int64.toInt_zero
  have hsize := h.size
  rcases h.declared with hneg | heq
  · have hint := Int64.lt_iff_toInt_lt.mp hneg
    omega
  · omega

theorem lengthDiffers_iff {written : ℕ} : lengthDiffers declared written = false ↔
    declared < 0 ∨ declared.toInt = written := by
  have hzero := Int64.toInt_zero
  simp only [lengthDiffers, Bool.and_eq_false_iff, decide_eq_false_iff_not,
    Int64.le_iff_toInt_le, Int64.lt_iff_toInt_lt, not_not]
  omega

/-- The world of a download when its copy has been checked for a cancel. -/
theorem canceled_iff (answers : ℕ → DownloadAnswer) (w : DownloadWorld) (tmp : Option Content)
    (body : GoIO.Reader GoError) :
    (DownloadWorld.meanwhile (answers 2)
      ⟨tmp, body, ((w.meanwhile (answers 0)).meanwhile (answers 1)).ctxCanceled⟩).ctxCanceled =
      false ↔ w.ctxCanceled = false ∧ ∀ n < 3, (answers n).cancel = false := by
  simp only [DownloadWorld.meanwhile, Bool.or_eq_false_iff]
  constructor
  · intro ⟨⟨⟨hw, h0⟩, h1⟩, h2⟩
    refine ⟨hw, ?_⟩
    intro n hn
    have hcases : n = 0 ∨ n = 1 ∨ n = 2 := by omega
    rcases hcases with rfl | rfl | rfl
    · exact h0
    · exact h1
    · exact h2
  · intro ⟨hw, hall⟩
    exact ⟨⟨⟨hw, hall 0 (by omega)⟩, hall 1 (by omega)⟩, hall 2 (by omega)⟩

/-- A failure behind the create is a download as it should be if it was not acceptable. -/
theorem downloads_failed {body : GoIO.Reader GoError} {w' : DownloadWorld}
    {result : Except GoError ℕ} (h : Failed answers body w' result)
    (hbounded : ∃ taken, w.body.content = taken ++ body.content ∧
      (taken.length : ℤ) ≤ maxBytes.toInt + 1)
    (hwhy : Acceptable declared maxBytes answers w → ¬ FilesWork answers) :
    Downloads declared maxBytes answers w w' result := by
  obtain ⟨⟨err, rfl⟩, htmp, rfl⟩ := h
  refine ⟨by simp, ?_, fun _ _ _ _ hremoves => htmp hremoves, hbounded⟩
  intro hacceptable hfiles
  exact absurd hfiles (hwhy hacceptable)

/-- A download of a body that fits into 63 bits succeeds exactly on the acceptable ones. -/
theorem saveBody_downloads (hmax : 0 ≤ maxBytes)
    (hbody : w.body.content.length < 2 ^ 63 - 1) :
    EndsIn answers w (saveBody declared maxBytes) (Downloads declared maxBytes answers w) := by
  have hzero := Int64.toInt_zero
  have hmax' := Int64.le_iff_toInt_le.mp hmax
  have hlimit := probeLimit_toInt hmax
  have hnonneg : ¬ maxBytes < 0 := by
    rw [Int64.lt_iff_toInt_lt]
    omega
  unfold saveBody
  rw [if_neg hnonneg]
  split
  next hlarge =>
    rw [endsIn_pure]
    have hnot : ¬ declared ≤ maxBytes := by
      rw [Int64.le_iff_toInt_le]
      have hint := Int64.lt_iff_toInt_lt.mp hlarge
      omega
    refine ⟨by simp, ?_, fun _ _ hle => absurd hle hnot, ⟨[], rfl, by simp; omega⟩⟩
    intro hacceptable
    exact absurd (acceptable_declared hacceptable hmax) hnot
  next hsmall =>
    unfold createFile
    rw [endsIn_call]
    cases hcreate : (answers 0).createErr with
    | some err =>
      refine ⟨by simp, ?_, ?_, ⟨[], rfl, by simp; omega⟩⟩
      · intro _ hfiles
        rw [(hfiles 0).1] at hcreate
        cases hcreate
      · intro _ _ _ hnone
        rw [hcreate] at hnone
        cases hnone
    | none =>
      unfold copyFile
      dsimp only
      rw [endsIn_call]
      obtain ⟨⟨taken, htaken, hlength⟩, hdone, hfine, -⟩ := GoIO.copy_copies (answers 1).writes
        ⟨w.body, (probeLimit maxBytes).toInt.toNat⟩
      dsimp only [meanwhile_body, later] at hdone hfine hlength ⊢
      generalize GoIO.copy (answers 1).writes ⟨w.body, (probeLimit maxBytes).toInt.toNat⟩ = c
        at htaken hdone hfine ⊢
      have hbounded : ∃ taken, w.body.content = taken ++ c.source.reader.content ∧
          (taken.length : ℤ) ≤ maxBytes.toInt + 1 := ⟨taken, htaken, by omega⟩
      have hcanceled : _ ↔ _ := canceled_iff answers w (some c.stored) c.source.reader
      cases herr : c.err with
      | some err =>
        have hends : EndsIn (later (later answers))
            ⟨some c.stored, c.source.reader, ((w.meanwhile (answers 0)).meanwhile
              (answers 1)).ctxCanceled⟩ (failCopy declared c.stored.length err)
            (Failed (later (later answers)) c.source.reader) := failCopy_ends
        refine downloads_failed hends.earlier.earlier hbounded ?_
        intro hacceptable hfiles
        have hnone := hfine (hfiles 1).2.2 (Or.inl hacceptable.ended)
        rw [hnone] at herr
        cases herr
      | none =>
        obtain ⟨hstored, heof⟩ := hdone herr
        rw [List.nil_append] at hstored
        have hwritten : (c.stored.length : ℤ) ≤ maxBytes.toInt →
            c.stored = w.body.content ∧ w.body.ending = .eof := by
          intro hsize
          rw [hstored, List.length_take] at hsize
          have hshort : w.body.content.length < (probeLimit maxBytes).toInt.toNat := by omega
          exact ⟨hstored.trans (List.take_of_length_le hshort.le), heof hshort⟩
        have hends : EndsIn (later (later answers))
            ⟨some c.stored, c.source.reader, ((w.meanwhile (answers 0)).meanwhile
              (answers 1)).ctxCanceled⟩ (acceptCopy declared maxBytes c.stored.length) _ :=
          acceptCopy_ends
        rcases hends with ⟨hok, htmp, hrest, haccepted⟩ | ⟨hfailed, hclose⟩
        · -- The copy has been accepted.
          obtain ⟨hcontent, hended⟩ := hwritten haccepted.size
          have hacceptable : Acceptable declared maxBytes answers w := by
            refine ⟨hended, hcanceled.mp haccepted.uncanceled, ?_, ?_⟩
            · rw [← hcontent]
              exact haccepted.size
            · rw [← hcontent]
              exact lengthDiffers_iff.mp haccepted.declared
          refine ⟨?_, ?_, ?_, ?_⟩
          · intro n hn
            have hsame := hok.symm.trans hn
            injection hsame with hsame
            refine ⟨hacceptable, ?_, ?_⟩
            · rw [← hsame, hcontent]
            · rw [← hcontent]
              exact htmp
          · intro _ _
            rw [← hcontent]
            exact hok
          · intro err herror
            cases hok.symm.trans herror
          · obtain ⟨taken, hbytes, hcount⟩ := hbounded
            exact ⟨taken, hrest ▸ hbytes, hcount⟩
        · -- It has been rejected, or the file could not be closed.
          refine downloads_failed hfailed.earlier.earlier hbounded ?_
          intro hacceptable hfiles
          have hcontent : c.stored = w.body.content := by
            rw [hstored]
            have hsize := hacceptable.size
            exact List.take_of_length_le (by omega)
          refine hclose ⟨hcanceled.mpr hacceptable.uncanceled, ?_, ?_⟩ (hfiles 3).2.1
          · rw [hcontent]
            exact hacceptable.size
          · rw [hcontent]
            exact lengthDiffers_iff.mpr hacceptable.declared

end Save

section Whole

/-- The end of a body whose read fails with this error. -/
def endingOf : Option GoError → GoIO.Ending GoError
  | none => .eof
  | some err => .failed err

theorem copyErr_none {resp : HttpResponse} (h : resp.readErr = none) (limit : ℕ) :
    resp.copyErr limit = none := by
  unfold HttpResponse.copyErr
  rw [h, ite_self, ite_self]

/-- The copy of a whole deploy, which takes the body as one piece, is the copy read by read, for
every body, every end and every limit. -/
theorem copyBody_copy {appID : String} {resp : HttpResponse} {limit : Int} (answers : ℕ → Answer)
    (w : DeployWorld) (reader : GoIO.Reader GoError) (hfault : (answers 0).fault = none)
    (hcontent : reader.content = resp.body)
    (hending : reader.ending =
      endingOf (resp.readErr.map (w.meanwhile (answers 0)).clientErr))
    (hlast : resp.body ≠ [] → reader.endsWithLast = resp.errWithLast) :
    let copied := GoIO.copy (fun _ => none) ⟨reader, limit.toNat⟩
    let outcome := (copyBody appID resp limit).alone answers w
    outcome.value = (copied.stored.length, copied.err) ∧
      outcome.state.disk.tmp = some copied.stored := by
  obtain ⟨-, hdone, hfine, hbroken, hexact⟩ :=
    GoIO.copy_copies (fun _ => none) ⟨reader, limit.toNat⟩
  dsimp only at hdone hfine hbroken hexact ⊢
  rw [hcontent] at hdone hfine hbroken hexact
  simp only [copyBody, call, Prog.alone_atomic, hfault]
  cases herr : resp.readErr with
  | none =>
    rw [herr] at hending
    have hnone := hfine (fun _ => rfl) (Or.inl hending)
    have hstored := (hdone hnone).1
    rw [List.nil_append] at hstored
    rw [copyErr_none herr, hnone, hstored]
    exact ⟨rfl, rfl⟩
  | some err =>
    rw [herr] at hending
    rcases Nat.lt_trichotomy resp.body.length limit.toNat with hshort | hall | hlong
    · obtain ⟨hstored, hsome⟩ := hbroken (fun _ => rfl) _ hending hshort
      rw [List.nil_append] at hstored
      rw [HttpResponse.copyErr, if_pos hshort, List.take_of_length_le hshort.le, hsome, hstored,
        herr]
      exact ⟨rfl, rfl⟩
    · obtain ⟨hstored, hsome⟩ := hexact (fun _ => rfl) _ hending hall
      rw [List.nil_append] at hstored
      rw [HttpResponse.copyErr, if_neg (by omega), List.take_of_length_le hall.le, hsome, hstored,
        herr]
      by_cases hempty : resp.body = []
      · rw [if_neg (fun h => h.2.1 hempty), GoIO.endsWithLast_nil (hcontent.trans hempty)]
        exact ⟨rfl, rfl⟩
      · rw [hlast hempty]
        cases resp.errWithLast with
        | true =>
          rw [if_pos ⟨hall, hempty, rfl⟩]
          exact ⟨rfl, rfl⟩
        | false =>
          rw [if_neg (fun h => Bool.false_ne_true h.2.2)]
          exact ⟨rfl, rfl⟩
    · have hnone := hfine (fun _ => rfl) (Or.inr hlong)
      have hstored := (hdone hnone).1
      rw [List.nil_append] at hstored
      rw [HttpResponse.copyErr, if_neg (by omega), if_neg (by omega), hnone, hstored]
      exact ⟨rfl, rfl⟩

end Whole

/-- From the response on, for every text that the header may have: a download succeeds only on an
acceptable response and whenever its files work on one, it leaves no file behind a failure, and
it reads one byte more than is allowed at most, which no bound of 64 bits makes wrap. -/
theorem download_accepted (text : List UInt8) (maxBytes : Int64)
    (answers : ℕ → DownloadAnswer) (w : DownloadWorld) (hmax : 0 ≤ maxBytes)
    (hbody : w.body.content.length < 2 ^ 63 - 1) :
    EndsIn answers w (saveBody (parseContentLength text) maxBytes)
        (Downloads (parseContentLength text) maxBytes answers w) ∧
      (probeLimit maxBytes).toInt = min (maxBytes.toInt + 1) (2 ^ 63 - 1) :=
  ⟨saveBody_downloads hmax hbody, probeLimit_toInt hmax⟩

/-- Three bytes in two reads, of a response that declared `3`, under the largest bound. -/
theorem download_accepted_whole :
    EndsIn (fun _ => ⟨false, none, fun _ => none, none, none⟩)
        ⟨none, ⟨[[1, 2], [3]], .eof, true⟩, false⟩
        (saveBody (parseContentLength [51]) Int64.maxValue)
        (fun w' result => result = .ok 3 ∧ w'.tmp = some [1, 2, 3]) := by
  have hends := (download_accepted [51] Int64.maxValue
    (fun _ => ⟨false, none, fun _ => none, none, none⟩)
    ⟨none, ⟨[[1, 2], [3]], .eof, true⟩, false⟩ (by decide) (by decide)).1
  have hacceptable : Acceptable (parseContentLength [51]) Int64.maxValue
      (fun _ => ⟨false, none, fun _ => none, none, none⟩)
      ⟨none, ⟨[[1, 2], [3]], .eof, true⟩, false⟩ :=
    ⟨rfl, ⟨rfl, fun _ _ => rfl⟩, by decide, Or.inr (by decide)⟩
  have hok := hends.whenever hacceptable fun _ => ⟨rfl, rfl, fun _ => rfl⟩
  exact ⟨hok, (hends.onlyIf 3 hok).2.2⟩

end AutoDeploy
