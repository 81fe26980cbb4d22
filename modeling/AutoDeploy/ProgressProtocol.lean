import AutoDeploy.Base64
import AutoDeploy.GoStrconv
import AutoDeploy.GoStrings
import AutoDeploy.ProgressTracker
import Mathlib.Data.Rat.Floor

namespace AutoDeploy

open GoStrings GoStrconv

def ProgressStage.text : ProgressStage → String
  | .queued => "queued"
  | .downloading => "downloading"
  | .validating => "validating"
  | .backingUp => "backing_up"
  | .installing => "installing"
  | .restarting => "restarting"
  | .healthcheck => "healthcheck"
  | .rollback => "rollback"
  | .succeeded => "succeeded"
  | .failed => "failed"

def progressProtocolVersion : String := "v1"

def progressFrameType : String := "p"

def progressFrameFieldCount : ℕ := 12

def progressFieldSeparator : UInt8 := 0x1f

def allowedProgressStages : List String :=
  ["queued", "downloading", "validating", "backing_up", "installing", "restarting", "healthcheck",
    "rollback", "succeeded", "failed"]

def allowedProgressStatuses : List String := ["pending", "in_progress", "succeeded", "failed"]

structure ProgressFrame (text : Type) where
  appID : text
  jobID : text
  tag : text
  stage : text
  status : text
  percent : Int64
  downloadedBytes : Int64
  totalBytes : Int64
  speedBPS : Int64
  message : text
deriving DecidableEq

def ProgressFrame.map {text text' : Type} (g : text → text') (f : ProgressFrame text) :
    ProgressFrame text' where
  appID := g f.appID
  jobID := g f.jobID
  tag := g f.tag
  stage := g f.stage
  status := g f.status
  percent := f.percent
  downloadedBytes := f.downloadedBytes
  totalBytes := f.totalBytes
  speedBPS := f.speedBPS
  message := g f.message

/-- The bytes of a Go string, which need not be a text. -/
abbrev GoBytes : Type := List UInt8

inductive ProgressFrameError
  | unknownStage (stage : GoBytes)
  | unknownStatus (status : GoBytes)
  | percentOutOfRange (percent : Int64)
  | fieldCount (count want : ℕ)
  | unsupportedVersion (version : GoBytes)
  | unsupportedType (type : GoBytes)
  | invalidPercent (err : NumError)
  | invalidDownloaded (err : NumError)
  | invalidTotal (err : NumError)
  | invalidSpeed (err : NumError)
  | invalidMessage
deriving DecidableEq

def validProgressPercent (pct : Int64) : Bool :=
  if pct = -1 then true else decide (0 ≤ pct) && decide (pct ≤ 100)

def validateProgressFrame (f : ProgressFrame GoBytes) : Except ProgressFrameError Unit :=
  if f.stage ∉ allowedProgressStages.map bytes then .error (.unknownStage f.stage)
  else if f.status ∉ allowedProgressStatuses.map bytes then .error (.unknownStatus f.status)
  else if validProgressPercent f.percent = false then .error (.percentOutOfRange f.percent)
  else .ok ()

def progressFrameParts (f : ProgressFrame GoBytes) : List GoBytes :=
  [bytes progressProtocolVersion, bytes progressFrameType, f.appID, f.jobID, f.tag, f.stage,
    f.status, formatInt f.percent, formatInt f.downloadedBytes, formatInt f.totalBytes,
    formatInt f.speedBPS, Base64.encode f.message]

def encodeProgressFrame (f : ProgressFrame GoBytes) : Except ProgressFrameError GoBytes := do
  validateProgressFrame f
  return [progressFieldSeparator].intercalate (progressFrameParts f)

def decodeProgressFrame (frame : GoBytes) : Except ProgressFrameError (ProgressFrame GoBytes) :=
  match frame.splitOn progressFieldSeparator with
  | [version, type, appID, jobID, tag, stage, status, pct, downloaded, total, speed, message] => do
    if version ≠ bytes progressProtocolVersion then throw (.unsupportedVersion version)
    if type ≠ bytes progressFrameType then throw (.unsupportedType type)
    let pct ← (parseInt pct).mapError .invalidPercent
    let downloaded ← (parseInt downloaded).mapError .invalidDownloaded
    let total ← (parseInt total).mapError .invalidTotal
    let speed ← (parseInt speed).mapError .invalidSpeed
    match Base64.decode message with
    | none => throw .invalidMessage
    | some message =>
      let f : ProgressFrame GoBytes :=
        { appID, jobID, tag, stage, status, percent := pct, downloadedBytes := downloaded,
          totalBytes := total, speedBPS := speed, message }
      validateProgressFrame f
      return f
  | parts => .error (.fieldCount parts.length progressFrameFieldCount)

def progressStatusForStage : ProgressStage → String
  | .queued => "pending"
  | .succeeded => "succeeded"
  | .failed => "failed"
  | _ => "in_progress"

/-- `int64` of a float. Go leaves open what a value out of range is; amd64 makes it the least
number. -/
def int64OfFloat (x : ℚ) : Int64 :=
  let n := if x < 0 then ⌈x⌉ else ⌊x⌋
  if -2 ^ 63 ≤ n ∧ n < 2 ^ 63 then Int64.ofInt n else Int64.minValue

def progressPercentInt (percent : ℚ) : Int64 :=
  if percent < 0 then -1 else if 100 < percent then 100 else int64OfFloat percent

def progressEventFrame (snapshot : ProgressSnapshot) : ProgressFrame String where
  appID := snapshot.appID
  jobID := snapshot.jobID
  tag := snapshot.tag
  stage := snapshot.phase.text
  status := progressStatusForStage snapshot.phase
  percent := progressPercentInt snapshot.percent
  downloadedBytes := .ofInt snapshot.downloadedBytes
  totalBytes := .ofInt snapshot.totalBytes
  speedBPS := int64OfFloat snapshot.speedBPS
  message := ""

def progressSnapshotFrame (snap : ProgressSnapshot) : Except ProgressFrameError GoBytes :=
  encodeProgressFrame
    { appID := bytes snap.appID
      jobID := bytes snap.jobID
      tag := bytes snap.tag
      stage := bytes snap.phase.text
      status := bytes (progressStatusForStage snap.phase)
      percent := progressPercentInt snap.percent
      downloadedBytes := .ofInt snap.downloadedBytes
      totalBytes := .ofInt snap.totalBytes
      speedBPS := int64OfFloat snap.speedBPS
      message := [] }

/-- A frame with a known stage and status, and a percentage or -1 for an unknown one. -/
structure ProgressFrame.Valid (f : ProgressFrame GoBytes) : Prop where
  stage : f.stage ∈ allowedProgressStages.map bytes
  status : f.status ∈ allowedProgressStatuses.map bytes
  percent : -1 ≤ f.percent ∧ f.percent ≤ 100

/-- The callers pass hexadecimal ids and tags that were checked. -/
structure ProgressFrame.Separable (f : ProgressFrame GoBytes) : Prop where
  appID : progressFieldSeparator ∉ f.appID
  jobID : progressFieldSeparator ∉ f.jobID
  tag : progressFieldSeparator ∉ f.tag

section Codec

variable {f : ProgressFrame GoBytes} {frame : GoBytes}

theorem validProgressPercent_iff (pct : Int64) :
    validProgressPercent pct = true ↔ -1 ≤ pct ∧ pct ≤ 100 := by
  have hminus : (-1 : Int64).toInt = -1 := rfl
  have hzero := Int64.toInt_zero
  have hhundred : (100 : Int64).toInt = 100 := rfl
  unfold validProgressPercent
  simp only [Int64.le_iff_toInt_le, ← Int64.toInt_inj, hminus, hzero, hhundred]
  split
  next h =>
    constructor
    · intro
      omega
    · intro
      rfl
  next h =>
    rw [Bool.and_eq_true, decide_eq_true_eq, decide_eq_true_eq]
    omega

theorem validateProgressFrame_iff : validateProgressFrame f = .ok () ↔ f.Valid := by
  unfold validateProgressFrame
  constructor
  · intro h
    split at h
    next => cases h
    next hstage =>
      split at h
      next => cases h
      next hstatus =>
        split at h
        next => cases h
        next hpercent =>
          rw [Bool.not_eq_false, validProgressPercent_iff] at hpercent
          exact ⟨not_not.mp hstage, not_not.mp hstatus, hpercent⟩
  · intro h
    have hpercent := (validProgressPercent_iff f.percent).mpr h.percent
    rw [if_neg (not_not.mpr h.stage), if_neg (not_not.mpr h.status), if_neg (by simp [hpercent])]

theorem encodeProgressFrame_ok (h : f.Valid) : encodeProgressFrame f =
    .ok ([progressFieldSeparator].intercalate (progressFrameParts f)) := by
  rw [encodeProgressFrame, validateProgressFrame_iff.mpr h]
  rfl

theorem encodeProgressFrame_iff :
    (∃ text, encodeProgressFrame f = .ok text) ↔ f.Valid := by
  constructor
  · intro ⟨text, h⟩
    rw [← validateProgressFrame_iff]
    cases hvalidate : validateProgressFrame f with
    | error e =>
      rw [encodeProgressFrame, hvalidate] at h
      cases h
    | ok => rfl
  · intro h
    exact ⟨_, encodeProgressFrame_ok h⟩

theorem notMem_of_range {text : GoBytes} (h : ∀ b ∈ text, 45 ≤ b.toNat) :
    progressFieldSeparator ∉ text := by
  intro hmem
  have hrange := h _ hmem
  exact absurd hrange (by decide)

theorem notMem_allowed : ∀ words ∈ [allowedProgressStages, allowedProgressStatuses,
    [progressProtocolVersion, progressFrameType]], ∀ text ∈ words.map bytes,
    progressFieldSeparator ∉ text := by
  intro words hwords text htext
  obtain ⟨word, hword, rfl⟩ := List.mem_map.mp htext
  rw [bytes_eq]
  have hall : ([allowedProgressStages, allowedProgressStatuses,
      [progressProtocolVersion, progressFrameType]].all fun words => words.all fun word =>
        decide (progressFieldSeparator ∉ word.toByteArray.data.toList)) = true := by decide
  simpa using List.all_eq_true.mp (List.all_eq_true.mp hall words hwords) word hword

/-- No part of a frame has a separator, whatever its message is. -/
theorem progressFrameParts_separable (hvalid : f.Valid) (h : f.Separable) :
    ∀ part ∈ progressFrameParts f, progressFieldSeparator ∉ part := by
  have hnumber : ∀ i : Int64, progressFieldSeparator ∉ formatInt i := fun i =>
    notMem_of_range fun b => formatInt_range
  have hmessage : progressFieldSeparator ∉ Base64.encode f.message :=
    notMem_of_range fun b => Base64.encode_range
  have hstage := notMem_allowed _ (by simp) _ hvalid.stage
  have hstatus := notMem_allowed _ (by simp) _ hvalid.status
  have hversion := notMem_allowed [progressProtocolVersion, progressFrameType] (by simp)
  simp only [List.map_cons, List.map_nil, List.forall_mem_cons] at hversion
  simp only [progressFrameParts, List.forall_mem_cons]
  exact ⟨hversion.1, hversion.2.1, h.appID, h.jobID, h.tag, hstage, hstatus, hnumber _, hnumber _,
    hnumber _, hnumber _, hmessage, by simp⟩

theorem decodeProgressFrame_parts (hvalid : f.Valid)
    (hparts : frame.splitOn progressFieldSeparator = progressFrameParts f) :
    decodeProgressFrame frame = .ok f := by
  rw [decodeProgressFrame, hparts]
  simp only [progressFrameParts, parseInt_formatInt, Base64.decode_encode, Except.mapError,
    ne_eq, not_true_eq_false, if_false]
  change (validateProgressFrame f >>= fun _ => pure f) = .ok f
  rw [validateProgressFrame_iff.mpr hvalid]
  rfl

theorem decodeProgressFrame_encode (hvalid : f.Valid) (h : f.Separable) :
    decodeProgressFrame ([progressFieldSeparator].intercalate (progressFrameParts f)) = .ok f :=
  decodeProgressFrame_parts hvalid <|
    List.splitOn_intercalate _ (progressFrameParts_separable hvalid h)
      (by simp [progressFrameParts])

theorem splitOn_notMem {sep : UInt8} (text : GoBytes) : ∀ part ∈ text.splitOn sep, sep ∉ part := by
  induction text with
  | nil => simp
  | cons b rest ih =>
    rw [List.splitOn_cons_eq_if_modifyHead]
    split
    next =>
      rw [List.forall_mem_cons]
      exact ⟨List.not_mem_nil, ih⟩
    next hb =>
      obtain ⟨first, others, hsplit⟩ := List.exists_cons_of_ne_nil (List.splitOn_ne_nil sep rest)
      rw [hsplit, List.forall_mem_cons] at ih
      rw [hsplit, List.modifyHead_cons, List.forall_mem_cons]
      refine ⟨?_, ih.2⟩
      rw [List.mem_cons, not_or]
      exact ⟨fun h => hb (by simp [h]), ih.1⟩

theorem bind_ok {α β ε : Type} {first : Except ε α} {rest : α → Except ε β} {value : β}
    (h : first >>= rest = .ok value) : ∃ a, first = .ok a ∧ rest a = .ok value := by
  cases first with
  | error e => cases h
  | ok a => exact ⟨a, rfl, h⟩

/-- What is accepted was checked, and its ids are parts of the text. -/
theorem decodeProgressFrame_valid (h : decodeProgressFrame frame = .ok f) :
    f.Valid ∧ f.Separable := by
  have hparts := @splitOn_notMem progressFieldSeparator frame
  unfold decodeProgressFrame at h
  split at h
  next version type appID jobID tag stage status pct downloaded total speed message hsplit =>
    rw [hsplit] at hparts
    simp only [List.forall_mem_cons] at hparts
    obtain ⟨-, -, happ, hjob, htag, -⟩ := hparts
    dsimp only at h
    split at h
    next => cases h
    next =>
      split at h
      next => cases h
      next =>
        obtain ⟨pct, -, h⟩ := bind_ok h
        obtain ⟨downloaded, -, h⟩ := bind_ok h
        obtain ⟨total, -, h⟩ := bind_ok h
        obtain ⟨speed, -, h⟩ := bind_ok h
        split at h
        next => cases h
        next =>
          obtain ⟨⟨⟩, hvalidate, h⟩ := bind_ok h
          rw [← Except.ok.inj h]
          exact ⟨validateProgressFrame_iff.mp hvalidate, happ, hjob, htag⟩
  next => cases h

end Codec

section Snapshot

theorem text_allowed (stage : ProgressStage) : stage.text ∈ allowedProgressStages := by
  cases stage <;> decide

theorem status_allowed (stage : ProgressStage) :
    progressStatusForStage stage ∈ allowedProgressStatuses := by
  cases stage <;> decide

/-- The percentage is in range, however the quotient was rounded. -/
theorem progressPercentInt_range (percent : ℚ) :
    -1 ≤ progressPercentInt percent ∧ progressPercentInt percent ≤ 100 := by
  unfold progressPercentInt
  split
  next => decide
  next hlow =>
    split
    next => decide
    next hhigh =>
      rw [not_lt] at hlow hhigh
      have hfloor : 0 ≤ ⌊percent⌋ := Int.floor_nonneg.mpr hlow
      have hceil : ⌊percent⌋ ≤ 100 := by
        have hle := Int.floor_mono hhigh
        rwa [show ⌊(100 : ℚ)⌋ = 100 from Int.floor_natCast 100] at hle
      rw [int64OfFloat, if_neg (not_lt.mpr hlow), if_pos (by omega)]
      rw [Int64.le_iff_toInt_le, Int64.le_iff_toInt_le,
        Int64.toInt_ofInt_of_le (by omega) (by omega)]
      exact ⟨by change (-1 : ℤ) ≤ _; omega, by change _ ≤ (100 : ℤ); omega⟩

/-- 29 of 100 bytes are reported as 28 percent. -/
example : progressPercentInt (ProgressTracker.percentOf 29 100) = 28 := by decide +kernel

/-- What is written for a snapshot is the frame that its event carries. -/
theorem progressSnapshotFrame_eq (snap : ProgressSnapshot) :
    progressSnapshotFrame snap = encodeProgressFrame ((progressEventFrame snap).map bytes) := by
  simp only [progressSnapshotFrame, progressEventFrame, ProgressFrame.map, bytes_empty]

theorem progressEventFrame_valid (snap : ProgressSnapshot) :
    ((progressEventFrame snap).map bytes).Valid :=
  ⟨List.mem_map_of_mem (text_allowed _), List.mem_map_of_mem (status_allowed _),
    progressPercentInt_range _⟩

theorem progressSnapshotFrame_ok (snap : ProgressSnapshot) : progressSnapshotFrame snap =
    .ok ([progressFieldSeparator].intercalate
      (progressFrameParts ((progressEventFrame snap).map bytes))) := by
  rw [progressSnapshotFrame_eq, encodeProgressFrame_ok (progressEventFrame_valid snap)]

end Snapshot

/-- A frame is written if it is valid, and it is read back with the same numbers and the same
message; what is read can be written and read again; every snapshot of the tracker is written as
the frame that its event carries. -/
theorem progressFrame_codec :
    (∀ f : ProgressFrame GoBytes, f.Separable →
      ((∃ text, encodeProgressFrame f = .ok text) ↔
        f.stage ∈ allowedProgressStages.map bytes ∧ f.status ∈ allowedProgressStatuses.map bytes ∧
          -1 ≤ f.percent ∧ f.percent ≤ 100) ∧
      ∀ text, encodeProgressFrame f = .ok text → decodeProgressFrame text = .ok f) ∧
    (∀ text f, decodeProgressFrame text = .ok f → f.Valid ∧
      ∃ text', encodeProgressFrame f = .ok text' ∧ decodeProgressFrame text' = .ok f) ∧
    ∀ (pt : ProgressTracker) appID snap, pt.snapshot appID = some snap →
      ∃ text, progressSnapshotFrame snap = .ok text ∧
        text = [progressFieldSeparator].intercalate
          (progressFrameParts ((progressEventFrame snap).map bytes)) ∧
        (((progressEventFrame snap).map bytes).Separable →
          decodeProgressFrame text = .ok ((progressEventFrame snap).map bytes)) := by
  refine ⟨fun f h => ⟨?_, ?_⟩, ?_, ?_⟩
  · rw [encodeProgressFrame_iff]
    constructor
    · intro hvalid
      exact ⟨hvalid.stage, hvalid.status, hvalid.percent⟩
    · intro hvalid
      exact ⟨hvalid.1, hvalid.2.1, hvalid.2.2⟩
  · intro text hencode
    have hvalid := encodeProgressFrame_iff.mp ⟨text, hencode⟩
    rw [encodeProgressFrame_ok hvalid, Except.ok.injEq] at hencode
    rw [← hencode]
    exact decodeProgressFrame_encode hvalid h
  · intro text f hdecode
    obtain ⟨hvalid, hseparable⟩ := decodeProgressFrame_valid hdecode
    exact ⟨hvalid, _, encodeProgressFrame_ok hvalid, decodeProgressFrame_encode hvalid hseparable⟩
  · intro pt appID snap _
    exact ⟨_, progressSnapshotFrame_ok snap, rfl,
      decodeProgressFrame_encode (progressEventFrame_valid snap)⟩

end AutoDeploy
