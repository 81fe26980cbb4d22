import AutoDeploy.DeployWorld

namespace AutoDeploy

open Interleaving

def isRetriableStatus (statusCode : Int) : Bool :=
  statusCode == 429 || (500 ≤ statusCode && statusCode < 600)

/-- One GET with its redirects. -/
def doWithRedirects (url : String) (headers : Headers) :
    Deploy (Except ClientError HttpResponse) :=
  call fun w k =>
    match k.response with
    | .error e =>
      let e := { e with err := w.clientErr e.err }
      (.error e, w, [.requested url headers (.error e.err)])
    | .ok resp => (.ok resp, w, [.requested url headers (.ok resp)])

/-- The attempts that are left of `DownloadWithRetryContext`; `last` is Go's `lastErr`. The
pauses between attempts are not modelled. -/
def downloadAttempts (url : String) (headers : Headers) :
    ℕ → GoError → Deploy (Except GoError HttpResponse)
  | 0, last => return .error (.errorf "download failed after 3 attempts: " last)
  | n + 1, _ => do
    match ← contextErr with
    | some err => return .error err
    | none =>
      match ← doWithRedirects url headers with
      | .error e =>
        match ← contextErr with
        | some err => return .error err
        | none =>
          if e.transient then downloadAttempts url headers n e.err else return .error e.err
      | .ok resp =>
        let statusErr := GoError.new ("HTTP " ++ toString resp.statusCode)
        if isRetriableStatus resp.statusCode then downloadAttempts url headers n statusErr
        else if resp.statusCode = 200 then return .ok resp
        else return .error statusErr

def downloadWithRetryContext (url : String) (headers : Headers) :
    Deploy (Except GoError HttpResponse) :=
  downloadAttempts url headers 3 (.new "")

/-- The wrapped sum of two `int64` values. -/
def addInt64 (a b : Int) : Int := Int.bmod (a + b) 0x10000000000000000

def createTmp : Deploy (Option GoError) :=
  fallible .created fun w _ => .ok { w with disk := w.disk.set (some []) .tmp }

/-- The error of the body, where the reads of a copy come to it: one that stands behind the limit
is not read. -/
def HttpResponse.copyErr (resp : HttpResponse) (limit : ℕ) : Option GoError :=
  if resp.body.length < limit then resp.readErr
  else if resp.body.length = limit ∧ resp.body ≠ [] ∧ resp.errWithLast = true then resp.readErr
  else none

/-- `io.Copy` from the limited reader to the file. Returns the bytes that were written and the
error of the read or of the write. -/
def copyBody (appID : String) (resp : HttpResponse) (limit : Int) :
    Deploy (ℕ × Option GoError) :=
  call fun w k =>
    let taken := resp.body.take limit.toNat
    let readErr := (resp.copyErr limit.toNat).map w.clientErr
    let (stored, err) := match k.fault with
      | some text => (taken.take k.stored, some (GoError.new text))
      | none => (taken, readErr)
    let tracker := k.reports.foldl
      (fun pt report => .update k.now appID report.1 resp.contentLength report.2 pt) w.tracker
    ((stored.length, err),
      { w with disk := w.disk.set (some stored) .tmp, tracker := tracker }, [.copied stored err])

def closeTmp : Deploy (Option GoError) := fallible .closed fun w _ => .ok w

/-- `time.Since` and the average speed that follows from it. -/
def timing : Deploy (Int × ℚ) := call fun w k => ((k.durationMs, k.speedBPS), w, [])

/-- `cleanupRejectedDownload`; the file is closed without a look at the error. -/
def cleanupRejectedDownload : Deploy Unit := do
  let _ ← osRemove .rejected
  return ()

def rejectDownload (err : GoError) : Deploy (Except GoError DownloadSummary) := do
  cleanupRejectedDownload
  return .error err

/-- The checks after the copy, and the close of the file. -/
def acceptDownload (resp : HttpResponse) (maxBytes : Int) (written : ℕ) :
    Deploy (Except GoError DownloadSummary) := do
  match ← contextErr with
  | some err => rejectDownload err
  | none =>
    if maxBytes < written then
      rejectDownload (.new ("download too large: wrote " ++ toString written ++ " bytes, max " ++
        toString maxBytes))
    else if 0 ≤ resp.contentLength ∧ (written : Int) ≠ resp.contentLength then
      rejectDownload (.new ("download incomplete: wrote " ++ toString written ++
        " bytes, expected " ++ toString resp.contentLength))
    else
      match ← closeTmp with
      | some err => rejectDownload (.errorf "write tmp file: " err)
      | none =>
        let (durationMs, speedBPS) ← timing
        return .ok ⟨written, durationMs, speedBPS⟩

/-- What a failed copy is reported as. -/
def copyFailed (resp : HttpResponse) (written : ℕ) (err : GoError) :
    Deploy (Except GoError DownloadSummary) := do
  cleanupRejectedDownload
  match ← contextErr with
  | some ctxErr => return .error ctxErr
  | none =>
    if 0 ≤ resp.contentLength ∧ (written : Int) ≠ resp.contentLength then
      return .error (.errorf ("download incomplete: wrote " ++ toString written ++
        " bytes, expected " ++ toString resp.contentLength ++ ": ") err)
    else return .error (.errorf "write tmp file: " err)

def downloadBinaryContext (appID url : String) (headers : Headers) (maxBytes : Int) :
    Deploy (Except GoError DownloadSummary) := do
  match ← downloadWithRetryContext url headers with
  | .error err => return .error (.errorf "download failed: " err)
  | .ok resp =>
    if maxBytes < 0 then
      return .error (.new ("download too large: invalid max bytes " ++ toString maxBytes))
    else if maxBytes < resp.contentLength then
      return .error (.new ("download too large: content length " ++ toString resp.contentLength ++
        " exceeds max " ++ toString maxBytes))
    else
      match ← createTmp with
      | some err => return .error (.errorf "create tmp file: " err)
      | none =>
        let probeLimit := max (addInt64 maxBytes 1) maxBytes
        match ← copyBody appID resp probeLimit with
        | (written, some err) => copyFailed resp written err
        | (written, none) => acceptDownload resp maxBytes written

/-- `os.Open` of the temporary file. -/
def openTmp : Deploy (Option GoError) := fallible .opened fun w _ => .ok w

/-- `io.ReadFull` of the first four bytes. -/
def readMagic : Deploy (Except GoError Content) :=
  call fun w k =>
    match k.fault with
    | some text => (.error (.new text), w, [.magicRead (some (.new text))])
    | none => (.ok ((w.disk.tmp.getD []).take 4), w, [.magicRead none])

def elfMagic : Content := [0x7f, 0x45, 0x4c, 0x46]

def validateDownloadedArtifact : Deploy (Option GoError) := do
  match ← osStat .tmp with
  | none => return some (.errorf "artifact validation: stat artifact: "
      ⟨"no such file or directory", some .notExist⟩)
  | some size =>
    if size = 0 then return some (.new "artifact validation: empty artifact")
    else if size < 4 then
      return some (.new ("artifact validation: too small: " ++ toString size ++ " bytes"))
    else
      match ← openTmp with
      | some err => return some (.errorf "artifact validation: open artifact: " err)
      | none =>
        match ← readMagic with
        | .error err => return some (.errorf "artifact validation: read magic bytes: " err)
        | .ok magic =>
          if magic = elfMagic then return none
          else return some (.new "artifact validation: invalid binary: not an ELF executable")

end AutoDeploy
