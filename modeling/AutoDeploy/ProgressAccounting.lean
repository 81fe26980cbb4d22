import AutoDeploy.ProgressLedger

namespace AutoDeploy

open GoIO

variable {ε : Type}

/-- The accounts of a run, read by read and report by report. -/
structure Accounts (cr : CountingReader) (results : List (ReadReturn ε)) : Prop where
  counted : ∀ front result, front ++ [result] <+: results →
    ∀ r ∈ ((cr.readAll front).read result).reports,
      r.downloaded.toInt = bytesRead (front ++ [result])
  ascending : (cr.reports results).Pairwise fun earlier later =>
    earlier.downloaded ≤ later.downloaded
  spaced : (cr.reports results).Pairwise fun earlier later =>
    later.force = false → earlier.current + cr.interval.toInt ≤ later.current
  forced : ∀ front result, front ++ [result] <+: results →
    ∀ r ∈ ((cr.readAll front).read result).reports, r.force = true → result.err = some .eof
  final : cr.callback = true → ∀ front result, front ++ [result] <+: results →
    result.err = some .eof → ∃ r, ((cr.readAll front).read result).reports.getLast? = some r ∧
      r.force = true ∧ r.downloaded.toInt = bytesRead (front ++ [result])
  window : ∀ front, front <+: results → WindowSound (cr.readAll front).window (bytesRead front)
  reported : ∀ front result, front ++ [result] <+: results →
    ∀ r ∈ ((cr.readAll front).read result).reports,
      WindowSound r.window (bytesRead (front ++ [result]))
  divides : ∀ r ∈ cr.reports results, ∃ speed, r.speedBPS = some speed ∧ 0 ≤ speed

section Main

variable {start : Int} {cr : CountingReader} {results front : List (ReadReturn ε)}
  {result : ReadReturn ε}

theorem prefix_sound (h : Ledger start 0 cr) (hfits : bytesRead results < 2 ^ 63)
    (hfront : front ++ [result] <+: results) :
    ∀ r ∈ ((cr.readAll front).read result).reports,
      r.Sound start (bytesRead (front ++ [result])) := by
  obtain ⟨hledger, hread, -⟩ := prefix_makes h hfits hfront
  have hmakes := read_makes hledger result hread
  simpa using hmakes.sound

theorem reports_sound (h : Ledger start 0 cr) (hfits : bytesRead results < 2 ^ 63) :
    ∀ r ∈ cr.reports results, ∃ bytes, r.Sound start bytes := by
  intro r hm
  obtain ⟨front, result, hfront, hr⟩ := mem_reports hm
  exact ⟨_, prefix_sound h hfits hfront r hr⟩

theorem run_accounts (h : Ledger start 0 cr) (hfits : bytesRead results < 2 ^ 63) :
    Accounts cr results := by
  have hrun := (run_makes h results (by rwa [Int.zero_add])).2
  refine ⟨?_, hrun.ascending, hrun.spaced, ?_, ?_, ?_, ?_, ?_⟩
  · intro front result hfront r hm
    exact (prefix_sound h hfits hfront r hm).counted
  · intro front result _
    exact read_force (cr.readAll front)
  · intro hcallback front result hfront heof
    obtain ⟨hledger, hread, hsame⟩ := prefix_makes h hfits hfront
    obtain ⟨r, hlast, hforce, hdownloaded⟩ := read_final (hsame.trans hcallback) heof
    refine ⟨r, hlast, hforce, ?_⟩
    rw [hdownloaded, (read_makes hledger result hread).ledger.counted]
    simp
  · intro front hfront
    have hbytes := bytesRead_prefix hfront
    have hledger := (run_makes h front (by omega)).1
    rw [Int.zero_add] at hledger
    exact hledger.window.mono hledger.owed
  · intro front result hfront r hm
    exact (prefix_sound h hfits hfront r hm).window
  · intro r hm
    obtain ⟨bytes, hsound⟩ := reports_sound h hfits r hm
    exact hsound.divides

theorem started_ledger (timeNow : Clock) (totalBytes interval : Int64) (cb : Bool)
    (now : Option Clock) (hclock : Monotone (now.getD timeNow).values) :
    Ledger (newCountingReaderWithClock timeNow totalBytes cb now).startTime 0
      { newCountingReaderWithClock timeNow totalBytes cb now with interval := interval } := by
  have hzero := Int64.toInt_zero
  refine ⟨hclock, hzero, hzero.ge, hzero.le, ⟨Nat.zero_le _, ?_, hzero.ge⟩, ?_, ?_⟩
  · rintro _ ⟨⟩
  · exact (sub_self (newCountingReaderWithClock timeNow totalBytes cb now).startTime).ge
  · exact hclock (Nat.le_succ _)

def ReadReturn.ofResult (result : ReadResult ε) : ReadReturn ε :=
  ⟨Int64.ofNat result.bytes.length, result.ending⟩

theorem bytesRead_ofResult {rs : List (ReadResult ε)}
    (h : (rs.flatMap ReadResult.bytes).length < 2 ^ 63) :
    bytesRead (rs.map ReadReturn.ofResult) = (rs.flatMap ReadResult.bytes).length := by
  induction rs with
  | nil => rfl
  | cons result rest ih =>
    simp only [List.map_cons, bytesRead_cons, List.flatMap_cons, List.length_append,
      Nat.cast_add] at h ⊢
    have hn : (ReadReturn.ofResult result).n.toInt = result.bytes.length :=
      Int64.toInt_ofNat_of_lt (by omega)
    have hcounted : (ReadReturn.ofResult result).counted = result.bytes.length := by
      rw [ReadReturn.counted, hn]
      exact max_eq_left (Int.natCast_nonneg _)
    rw [hcounted, ih (by omega)]

/-- Whatever was read, an end of file reports the residue of the count. -/
theorem final_wraps (hcallback : cr.callback = true) (front : List (ReadReturn ε))
    (result : ReadReturn ε) (heof : result.err = some .eof) :
    ∃ r, ((cr.readAll front).read result).reports.getLast? = some r ∧
      r.downloaded.toInt =
        (cr.downloaded.toInt + bytesRead (front ++ [result])).bmod (2 ^ 64) := by
  have hfront := (readAll_kept cr front).2.trans hcallback
  obtain ⟨r, hlast, -, hdownloaded⟩ := read_final hfront heof
  have hkept := (readAll_kept cr (front ++ [result])).1
  rw [readAll_append] at hkept
  exact ⟨r, hlast, hdownloaded ▸ hkept⟩

theorem bytesRead_replicate (n : ℕ) (result : ReadReturn ε) :
    bytesRead (List.replicate n result) = n * result.counted := by
  simp [bytesRead]

/-- As long as the bytes that were read fit into 63 bits, the reader keeps its accounts, and the
speed is that of the window until the samples of one window last for 2^63 nanoseconds. -/
theorem reader_accounts (timeNow : Clock) (totalBytes interval : Int64) (cb : Bool)
    (now : Option Clock) (hclock : Monotone (now.getD timeNow).values)
    (results : List (ReadReturn ε)) (hfits : bytesRead results < 2 ^ 63) :
    let cr := { newCountingReaderWithClock timeNow totalBytes cb now with interval := interval }
    Accounts cr results ∧ ∀ r ∈ cr.reports results,
      (SpeedExact r.window r.speedBPS ↔ windowTime r.window < 2 ^ 63) ∧
        windowTime r.window ≤ r.current - cr.startTime := by
  intro cr
  have hstart := started_ledger timeNow totalBytes interval cb now hclock
  refine ⟨run_accounts hstart hfits, ?_⟩
  intro r hm
  obtain ⟨bytes, hsound⟩ := reports_sound hstart hfits r hm
  exact ⟨hsound.speed, hsound.time⟩

theorem reader_accounts_steady :
    let clock : Clock := ⟨fun n => 500000000 * n, 0⟩
    let cr := { newCountingReaderWithClock clock 1000 true none with interval := 500000000 }
    let results : List (ReadReturn Unit) := [⟨250, none⟩, ⟨250, none⟩, ⟨0, some .eof⟩]
    Accounts cr results ∧ ∀ r ∈ cr.reports results,
      (SpeedExact r.window r.speedBPS ↔ windowTime r.window < 2 ^ 63) ∧
        windowTime r.window ≤ r.current - cr.startTime := by
  intro clock cr results
  have hclock : Monotone clock.values := by
    intro i j hij
    dsimp only [clock]
    omega
  exact reader_accounts clock 1000 500000000 true none hclock results (by decide)

/-- Whatever the body is and ends with, and however its reads are sized: the `io.LimitReader` of a
download, whose limit is an `int64`, keeps the count of its reader from wrapping. -/
theorem download_accounts (timeNow : Clock) (totalBytes limit : Int64) (cb : Bool)
    (hclock : Monotone timeNow.values) (body : Reader ε) (sizes : List ℕ) :
    let cr := newCountingReader timeNow totalBytes cb
    let results := (LimitedReader.returned ⟨body, limit.toInt.toNat⟩ sizes).map ReadReturn.ofResult
    Accounts cr results ∧
      (∀ r ∈ cr.reports results, r.downloaded.toInt ≤ max limit.toInt 0) ∧
      ∀ r ∈ cr.reports results, r.current - cr.startTime < 2 ^ 63 →
        SpeedExact r.window r.speedBPS := by
  intro cr results
  have hstart : Ledger cr.startTime 0 cr :=
    started_ledger timeNow totalBytes defaultCountingReaderInterval cb (some timeNow) hclock
  have hhigh := limit.toInt_lt
  have hbounded : (((LimitedReader.returned ⟨body, limit.toInt.toNat⟩ sizes).flatMap
      ReadResult.bytes).length : ℤ) ≤ max limit.toInt 0 := by
    have hreturned := returned_bounded ⟨body, limit.toInt.toNat⟩ sizes
    dsimp only at hreturned
    omega
  have hread : bytesRead results ≤ max limit.toInt 0 := by
    rw [bytesRead_ofResult (by omega)]
    exact hbounded
  have hfits : bytesRead results < 2 ^ 63 := by omega
  refine ⟨run_accounts hstart hfits, ?_, ?_⟩
  · intro r hm
    obtain ⟨front, result, hfront, hr⟩ := mem_reports hm
    have hcounted := (prefix_sound hstart hfits hfront r hr).counted
    have hle := bytesRead_prefix hfront
    exact hcounted ▸ hle.trans hread
  · intro r hm hshort
    obtain ⟨bytes, hsound⟩ := reports_sound hstart hfits r hm
    exact hsound.speed.mpr (hsound.time.trans_lt hshort)

/-- Three bytes behind a limit of two, read one by one every half second. -/
theorem download_accounts_cut :
    let clock : Clock := ⟨fun n => 500000000 * n, 0⟩
    let cr := newCountingReader clock 3 true
    let results := (LimitedReader.returned
      (⟨⟨[[1], [2], [3]], .eof, false⟩, 2⟩ : LimitedReader Unit) [8, 8, 8]).map ReadReturn.ofResult
    (cr.reports results).map (fun r => r.downloaded.toInt) = [1, 2] ∧ Accounts cr results := by
  intro clock cr results
  have hclock : Monotone clock.values := by
    intro i j hij
    dsimp only [clock]
    omega
  have haccounts := download_accounts clock 3 2 true hclock
    (⟨[[1], [2], [3]], .eof, false⟩ : Reader Unit) [8, 8, 8]
  exact ⟨by decide +kernel, haccounts.1⟩

/-- 2^33 reads of 2^30 bytes each before an end of file, at a clock that stands still, and two
reads of one byte that are 2^62 nanoseconds apart. -/
theorem wrapped_misreports :
    (let cr := newCountingReader ⟨fun _ => 0, 0⟩ 0 true
      let front : List (ReadReturn Unit) := List.replicate (2 ^ 33) ⟨1073741824, none⟩
      let last : ReadReturn Unit := ⟨0, some .eof⟩
      bytesRead (front ++ [last]) = 2 ^ 63 ∧
        ∃ r, ((cr.readAll front).read last).reports.getLast? = some r ∧
          r.downloaded.toInt = -2 ^ 63) ∧
    (let clock : Clock := ⟨fun n => 2 ^ 62 * n, 0⟩
      let cr := newCountingReader clock 2 true
      let results : List (ReadReturn Unit) := [⟨1, none⟩, ⟨1, none⟩]
      Monotone clock.values ∧ ∃ r ∈ cr.reports results,
        windowBytes r.window = 2 ∧ windowTime r.window = 2 ^ 63 ∧ r.speedBPS = some 0 ∧
          ¬ SpeedExact r.window r.speedBPS) := by
  refine ⟨?_, ?_⟩
  · intro cr front last
    have hbytes : bytesRead (front ++ [last]) = 2 ^ 63 := by
      have hcounted : (⟨1073741824, none⟩ : ReadReturn Unit).counted = 2 ^ 30 := by decide
      have hend : last.counted = 0 := by decide
      rw [bytesRead_append, bytesRead_replicate, hcounted, bytesRead_cons, hend, bytesRead_nil]
      decide
    have hcallback : cr.callback = true := rfl
    obtain ⟨r, hlast, hdownloaded⟩ := final_wraps hcallback front last rfl
    refine ⟨hbytes, r, hlast, ?_⟩
    rw [hdownloaded, hbytes]
    decide
  · intro clock cr results
    refine ⟨?_, ?_⟩
    · intro i j hij
      dsimp only [clock]
      omega
    · have hreport : ∃ r ∈ cr.reports results, windowBytes r.window = 2 ∧
          windowTime r.window = 2 ^ 63 ∧ r.speedBPS = some 0 := by decide +kernel
      obtain ⟨r, hm, hbytes, htime, hspeed⟩ := hreport
      refine ⟨r, hm, hbytes, htime, hspeed, ?_⟩
      rw [hspeed, SpeedExact, hbytes, htime]
      rintro (⟨hempty, -⟩ | ⟨-, hexact⟩)
      · rw [hempty] at hbytes
        cases hbytes
      · exact (divide_pos (by decide : (0 : Int) < 2) (by decide : (0 : Int) < 2 ^ 63)).2.ne
          (Option.some.inj hexact)

end Main

end AutoDeploy
