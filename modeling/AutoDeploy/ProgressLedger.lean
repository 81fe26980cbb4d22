import AutoDeploy.ProgressReader

namespace AutoDeploy

variable {ε : Type}

/-- The bytes that a `Read` gave. -/
def ReadReturn.counted (result : ReadReturn ε) : Int := max result.n.toInt 0

def bytesRead (results : List (ReadReturn ε)) : Int := (results.map ReadReturn.counted).sum

/-- How the fields of a reader hang together, with these bytes read since its start. -/
structure Ledger (start bytes : Int) (cr : CountingReader) : Prop where
  clock : Monotone cr.now.values
  counted : cr.downloaded.toInt = bytes
  sent : 0 ≤ cr.lastSent.toInt
  owed : cr.lastSent.toInt ≤ bytes
  window : WindowSound cr.window cr.lastSent.toInt
  time : windowTime cr.window ≤ cr.lastReport - start
  past : cr.lastReport ≤ cr.now.values cr.now.calls

/-- A report after these bytes tells the count, and the speed of a sound window. -/
structure ProgressReport.Sound (start bytes : Int) (r : ProgressReport) : Prop where
  counted : r.downloaded.toInt = bytes
  window : WindowSound r.window bytes
  time : windowTime r.window ≤ r.current - start
  divides : ∃ speed, r.speedBPS = some speed ∧ 0 ≤ speed
  speed : SpeedExact r.window r.speedBPS ↔ windowTime r.window < 2 ^ 63

/-- How the reports that are made between two states of a reader follow each other. -/
structure Emits (cr : CountingReader) (reports : List ProgressReport) (cr' : CountingReader) :
    Prop where
  interval : cr'.interval = cr.interval
  callback : cr'.callback = cr.callback
  later : cr.lastReport ≤ cr'.lastReport
  grown : cr.downloaded ≤ cr'.downloaded
  counts : ∀ r ∈ reports, cr.downloaded ≤ r.downloaded ∧ r.downloaded ≤ cr'.downloaded
  between : ∀ r ∈ reports, cr.lastReport ≤ r.current ∧ r.current ≤ cr'.lastReport
  waited : ∀ r ∈ reports, r.force = false → cr.lastReport + cr.interval.toInt ≤ r.current
  ascending : reports.Pairwise fun earlier later => earlier.downloaded ≤ later.downloaded
  spaced : reports.Pairwise fun earlier later =>
    later.force = false → earlier.current + cr.interval.toInt ≤ later.current

/-- What a part of a `Read` does once these bytes are counted. -/
structure Makes (start bytes : Int) (cr : CountingReader) (reports : List ProgressReport)
    (cr' : CountingReader) : Prop where
  ledger : Ledger start bytes cr'
  emits : Emits cr reports cr'
  sound : ∀ r ∈ reports, r.Sound start bytes

section Bytes

variable {result : ReadReturn ε} {results front : List (ReadReturn ε)}

theorem counted_nonneg (result : ReadReturn ε) : 0 ≤ result.counted := le_max_right _ _

theorem counted_of_pos (h : 0 < result.n) : result.counted = result.n.toInt := by
  rw [Int64.lt_iff_toInt_lt, Int64.toInt_zero] at h
  exact max_eq_left h.le

theorem counted_of_not_pos (h : ¬ 0 < result.n) : result.counted = 0 := by
  rw [Int64.lt_iff_toInt_lt, Int64.toInt_zero, not_lt] at h
  exact max_eq_right h

theorem bytesRead_nonneg (results : List (ReadReturn ε)) : 0 ≤ bytesRead results := by
  apply List.sum_nonneg
  intro count hm
  obtain ⟨result, -, rfl⟩ := List.mem_map.mp hm
  exact counted_nonneg result

@[simp] theorem bytesRead_nil : bytesRead ([] : List (ReadReturn ε)) = 0 := rfl

@[simp] theorem bytesRead_cons (result : ReadReturn ε) (results : List (ReadReturn ε)) :
    bytesRead (result :: results) = result.counted + bytesRead results := by
  simp [bytesRead]

@[simp] theorem bytesRead_append (xs ys : List (ReadReturn ε)) :
    bytesRead (xs ++ ys) = bytesRead xs + bytesRead ys := by
  simp [bytesRead]

theorem bytesRead_prefix (h : front <+: results) : bytesRead front ≤ bytesRead results := by
  obtain ⟨back, rfl⟩ := h
  rw [bytesRead_append]
  have hback := bytesRead_nonneg back
  omega

end Bytes

section Emits

variable {cr cr' cr'' : CountingReader} {xs ys : List ProgressReport}

theorem emits_none (hinterval : cr'.interval = cr.interval)
    (hcallback : cr'.callback = cr.callback) (hlater : cr.lastReport ≤ cr'.lastReport)
    (hgrown : cr.downloaded ≤ cr'.downloaded) : Emits cr [] cr' :=
  ⟨hinterval, hcallback, hlater, hgrown, by simp, by simp, by simp, .nil, .nil⟩

theorem emits_refl (cr : CountingReader) : Emits cr [] cr :=
  emits_none rfl rfl le_rfl (Int64.le_refl _)

/-- Reports one after the other: each of the second part comes behind each of the first. -/
theorem Emits.append (h : Emits cr xs cr') (h' : Emits cr' ys cr'') :
    Emits cr (xs ++ ys) cr'' := by
  have hinterval := h.interval
  refine ⟨h'.interval.trans h.interval, h'.callback.trans h.callback, h.later.trans h'.later,
    Int64.le_trans h.grown h'.grown, ?_, ?_, ?_, ?_, ?_⟩
  · intro r hm
    rcases List.mem_append.mp hm with hm | hm
    · exact ⟨(h.counts r hm).1, Int64.le_trans (h.counts r hm).2 h'.grown⟩
    · exact ⟨Int64.le_trans h.grown (h'.counts r hm).1, (h'.counts r hm).2⟩
  · intro r hm
    rcases List.mem_append.mp hm with hm | hm
    · exact ⟨(h.between r hm).1, (h.between r hm).2.trans h'.later⟩
    · exact ⟨h.later.trans (h'.between r hm).1, (h'.between r hm).2⟩
  · intro r hm hforce
    rcases List.mem_append.mp hm with hm | hm
    · exact h.waited r hm hforce
    · have hlater := h.later
      have hwaited := h'.waited r hm hforce
      rw [hinterval] at hwaited
      omega
  · refine List.pairwise_append.mpr ⟨h.ascending, h'.ascending, ?_⟩
    intro earlier hx later hy
    exact Int64.le_trans (h.counts earlier hx).2 (h'.counts later hy).1
  · refine List.pairwise_append.mpr ⟨h.spaced, hinterval ▸ h'.spaced, ?_⟩
    intro earlier hx later hy hforce
    have hbetween := (h.between earlier hx).2
    have hwaited := h'.waited later hy hforce
    rw [hinterval] at hwaited
    omega

end Emits

section Read

variable {start bytes : Int} {cr : CountingReader}

/-- The window of a report: the new sample is what was counted since the last one. -/
theorem report_window (h : Ledger start bytes cr) (force : Bool) {current : Int}
    (hlater : cr.lastReport ≤ current) :
    WindowSound (cr.report force current).2.window bytes ∧
      windowTime (cr.report force current).2.window ≤ current - start := by
  have hbounds := timeSub_bounds hlater
  have hsince : (cr.downloaded - cr.lastSent).toInt = bytes - cr.lastSent.toInt := by
    have hsent : 0 ≤ cr.lastSent := by
      rw [Int64.le_iff_toInt_le, Int64.toInt_zero]
      exact h.sent
    have howed : cr.lastSent ≤ cr.downloaded := by
      rw [Int64.le_iff_toInt_le, h.counted]
      exact h.owed
    rw [Int64.toInt_sub_of_le _ _ hsent howed, h.counted]
  have htime := h.time
  unfold CountingReader.report
  dsimp only
  rw [max_timeSub hlater]
  split
  next hsample =>
    obtain ⟨hwindow, htimes⟩ := pushSample_sound h.window hsample.1 hsample.2
    rw [hsince] at hwindow
    exact ⟨hwindow.mono (by omega), by omega⟩
  next => exact ⟨h.window.mono h.owed, by omega⟩

theorem report_makes (h : Ledger start bytes cr) (force : Bool) {current : Int}
    (hlater : cr.lastReport ≤ current) (hpast : current ≤ cr.now.values cr.now.calls)
    (hwaited : force = false → cr.lastReport + cr.interval.toInt ≤ current) :
    Makes start bytes cr (cr.report force current).1 (cr.report force current).2 := by
  have hbytes : bytes < 2 ^ 63 := h.counted ▸ Int64.toInt_lt cr.downloaded
  have hwindow := report_window h force hlater
  have hledger : Ledger start bytes (cr.report force current).2 := by
    have hsent : (cr.report force current).2.lastSent.toInt = bytes := h.counted
    refine ⟨h.clock, h.counted, ?_, ?_, ?_, hwindow.2, hpast⟩
    · rw [hsent]
      exact h.sent.trans h.owed
    · rw [hsent]
    · rw [hsent]
      exact hwindow.1
  refine ⟨hledger, ?_, ?_⟩
  · refine ⟨rfl, rfl, hlater, Int64.le_refl _, ?_, ?_, ?_, List.pairwise_singleton _ _,
      List.pairwise_singleton _ _⟩
    · intro r hm
      cases List.mem_singleton.mp hm
      exact ⟨Int64.le_refl _, Int64.le_refl _⟩
    · intro r hm
      cases List.mem_singleton.mp hm
      exact ⟨hlater, le_rfl⟩
    · intro r hm hforce
      cases List.mem_singleton.mp hm
      exact hwaited hforce
  · intro r hm
    cases List.mem_singleton.mp hm
    exact ⟨h.counted, hwindow.1, hwindow.2, rollingSpeed_nonneg _,
      speedExact_iff hwindow.1 hbytes⟩

/-- `maybeReport` without a callback, throttled, or reporting at the next value of the clock. -/
theorem maybeReport_cases (cr : CountingReader) (force : Bool) :
    (cr.callback = false ∧ cr.maybeReport force = ([], cr)) ∨
      (force = false ∧ cr.maybeReport force = ([], { cr with now := cr.now.now.2 })) ∨
      ((force = false → cr.interval ≤ timeSub cr.now.now.1 cr.lastReport) ∧
        cr.maybeReport force =
          CountingReader.report { cr with now := cr.now.now.2 } force cr.now.now.1) := by
  unfold CountingReader.maybeReport
  split
  next hnone => exact Or.inl ⟨hnone, rfl⟩
  next =>
    dsimp only
    split
    next hthrottled => exact Or.inr (Or.inl ⟨hthrottled.1, rfl⟩)
    next hdue =>
      refine Or.inr (Or.inr ⟨?_, rfl⟩)
      intro hforce
      exact Int64.not_lt.mp fun hlt => hdue ⟨hforce, hlt⟩

theorem makes_refl (h : Ledger start bytes cr) : Makes start bytes cr [] cr :=
  ⟨h, emits_refl cr, by simp⟩

theorem Makes.append {xs ys : List ProgressReport} {cr' cr'' : CountingReader}
    (h : Makes start bytes cr xs cr') (h' : Makes start bytes cr' ys cr'') :
    Makes start bytes cr (xs ++ ys) cr'' := by
  refine ⟨h'.ledger, h.emits.append h'.emits, ?_⟩
  intro r hm
  rcases List.mem_append.mp hm with hm | hm
  · exact h.sound r hm
  · exact h'.sound r hm

/-- One more call of the clock. -/
theorem tick_makes (h : Ledger start bytes cr) :
    Makes start bytes cr [] { cr with now := cr.now.now.2 } :=
  ⟨⟨h.clock, h.counted, h.sent, h.owed, h.window, h.time,
    h.past.trans (h.clock (Nat.le_succ cr.now.calls))⟩,
    emits_none rfl rfl le_rfl (Int64.le_refl _), by simp⟩

theorem maybeReport_makes (h : Ledger start bytes cr) (force : Bool) :
    Makes start bytes cr (cr.maybeReport force).1 (cr.maybeReport force).2 := by
  have htick := tick_makes h
  rcases maybeReport_cases cr force with ⟨-, hsame⟩ | ⟨-, hsame⟩ | ⟨hdue, hreport⟩
  · rw [hsame]
    exact makes_refl h
  · rw [hsame]
    exact htick
  · rw [hreport]
    refine htick.append (report_makes htick.ledger force h.past ?_ ?_)
    · exact h.clock (Nat.le_succ cr.now.calls)
    · intro hforce
      have hinterval := Int64.le_iff_toInt_le.mp (hdue hforce)
      have helapsed : (timeSub cr.now.now.1 cr.lastReport).toInt ≤ cr.now.now.1 - cr.lastReport :=
        (timeSub_bounds h.past).2
      dsimp only
      omega

theorem maybeReport_force (cr : CountingReader) (force : Bool) :
    ∀ r ∈ (cr.maybeReport force).1, r.force = force := by
  intro r hm
  rcases maybeReport_cases cr force with ⟨-, hsame⟩ | ⟨-, hsame⟩ | ⟨-, hreport⟩
  · rw [hsame] at hm
    cases hm
  · rw [hsame] at hm
    cases hm
  · rw [hreport] at hm
    cases List.mem_singleton.mp hm
    rfl

/-- A forced report is made, whatever the time. -/
theorem maybeReport_forced (h : cr.callback = true) :
    ∃ r, (cr.maybeReport true).1 = [r] ∧ r.downloaded = cr.downloaded := by
  rcases maybeReport_cases cr true with ⟨hnone, -⟩ | ⟨hforce, -⟩ | ⟨-, hreport⟩
  · rw [h] at hnone
    cases hnone
  · cases hforce
  · rw [hreport]
    exact ⟨_, rfl, rfl⟩

variable {result : ReadReturn ε}

theorem count_makes (h : Ledger start bytes cr) (hfits : bytes + result.counted < 2 ^ 63) :
    Makes start (bytes + result.counted) cr (cr.count result.n).1 (cr.count result.n).2 := by
  unfold CountingReader.count
  split
  next hn =>
    have hcounted := counted_of_pos hn
    have hpos := counted_nonneg result
    have hbytes := h.counted
    have hsent := h.sent
    have howed := h.owed
    rw [hcounted] at hfits hpos ⊢
    have hsum : (cr.downloaded + result.n).toInt = bytes + result.n.toInt := by
      rw [toInt_add_eq (by omega) (by omega) (by omega), hbytes]
    have hgrown : cr.downloaded ≤ cr.downloaded + result.n := by
      rw [Int64.le_iff_toInt_le, hsum]
      omega
    have hadded : Makes start (bytes + result.n.toInt) cr []
        { cr with downloaded := cr.downloaded + result.n } :=
      ⟨⟨h.clock, hsum, hsent, by dsimp only; omega, h.window, h.time, h.past⟩,
        emits_none rfl rfl le_rfl hgrown, by simp⟩
    exact hadded.append (maybeReport_makes hadded.ledger false)
  next hn =>
    rw [counted_of_not_pos hn, Int.add_zero]
    exact makes_refl h

theorem read_eof (cr : CountingReader) (h : result.err = some .eof) :
    (cr.read result).reports =
        (cr.count result.n).1 ++ ((cr.count result.n).2.maybeReport true).1 ∧
      (cr.read result).after = ((cr.count result.n).2.maybeReport true).2 := by
  simp [CountingReader.read, h]

theorem read_quiet (cr : CountingReader) (h : result.err ≠ some .eof) :
    (cr.read result).reports = (cr.count result.n).1 ∧
      (cr.read result).after = (cr.count result.n).2 := by
  unfold CountingReader.read
  dsimp only
  split
  next heof => exact absurd heof h
  next => exact ⟨rfl, rfl⟩

theorem read_makes (h : Ledger start bytes cr) (result : ReadReturn ε)
    (hfits : bytes + result.counted < 2 ^ 63) :
    Makes start (bytes + result.counted) cr (cr.read result).reports (cr.read result).after := by
  have hcount := count_makes h hfits
  by_cases heof : result.err = some .eof
  · rw [(read_eof cr heof).1, (read_eof cr heof).2]
    exact hcount.append (maybeReport_makes hcount.ledger true)
  · rw [(read_quiet cr heof).1, (read_quiet cr heof).2]
    exact hcount

/-- Only an end of file forces a report. -/
theorem read_force (cr : CountingReader) :
    ∀ r ∈ (cr.read result).reports, r.force = true → result.err = some .eof := by
  intro r hm hforce
  by_contra heof
  rw [(read_quiet cr heof).1, CountingReader.count] at hm
  split at hm
  next => exact absurd (maybeReport_force _ false r hm) (by simp [hforce])
  next => cases hm

theorem maybeReport_kept (cr : CountingReader) (force : Bool) :
    (cr.maybeReport force).2.downloaded = cr.downloaded ∧
      (cr.maybeReport force).2.callback = cr.callback := by
  rcases maybeReport_cases cr force with ⟨-, hsame⟩ | ⟨-, hsame⟩ | ⟨-, hreport⟩
  · rw [hsame]
    exact ⟨rfl, rfl⟩
  · rw [hsame]
    exact ⟨rfl, rfl⟩
  · rw [hreport]
    exact ⟨rfl, rfl⟩

theorem count_kept (cr : CountingReader) (n : Int64) :
    (cr.count n).2.downloaded = (if 0 < n then cr.downloaded + n else cr.downloaded) ∧
      (cr.count n).2.callback = cr.callback := by
  unfold CountingReader.count
  split
  next => exact maybeReport_kept _ _
  next => exact ⟨rfl, rfl⟩

theorem read_kept (cr : CountingReader) (result : ReadReturn ε) :
    (cr.read result).after.downloaded = (cr.count result.n).2.downloaded ∧
      (cr.read result).after.callback = cr.callback := by
  have hcount := count_kept cr result.n
  by_cases heof : result.err = some .eof
  · have hkept := maybeReport_kept (cr.count result.n).2 true
    rw [(read_eof cr heof).2]
    exact ⟨hkept.1, hkept.2.trans hcount.2⟩
  · rw [(read_quiet cr heof).2]
    exact ⟨rfl, hcount.2⟩

/-- An end of file is reported, behind all that the reader counted. -/
theorem read_final (hcallback : cr.callback = true) (heof : result.err = some .eof) :
    ∃ r, (cr.read result).reports.getLast? = some r ∧ r.force = true ∧
      r.downloaded = (cr.read result).after.downloaded := by
  obtain ⟨r, hr, hdownloaded⟩ :=
    maybeReport_forced ((count_kept cr result.n).2.trans hcallback)
  refine ⟨r, ?_, maybeReport_force (cr.count result.n).2 true r (by simp [hr]), ?_⟩
  · rw [(read_eof cr heof).1, hr, List.getLast?_concat]
  · rw [hdownloaded, (read_kept cr result).1]

end Read

section Run

variable {start bytes : Int} {cr : CountingReader} {result : ReadReturn ε}
  {results front : List (ReadReturn ε)}

@[simp] theorem readAll_append (cr : CountingReader) (xs ys : List (ReadReturn ε)) :
    cr.readAll (xs ++ ys) = (cr.readAll xs).readAll ys := List.foldl_append ..

theorem run_makes (h : Ledger start bytes cr) (results : List (ReadReturn ε))
    (hfits : bytes + bytesRead results < 2 ^ 63) :
    Ledger start (bytes + bytesRead results) (cr.readAll results) ∧
      Emits cr (cr.reports results) (cr.readAll results) := by
  induction results generalizing cr bytes with
  | nil =>
    refine ⟨?_, emits_refl cr⟩
    simpa [bytesRead, CountingReader.readAll] using h
  | cons result rest ih =>
    rw [bytesRead_cons, ← Int.add_assoc] at hfits ⊢
    have hrest := bytesRead_nonneg rest
    have hread := read_makes h result (by omega)
    obtain ⟨hledger, hemits⟩ := ih hread.ledger hfits
    exact ⟨hledger, hread.emits.append hemits⟩

/-- Without a bound on the bytes, the count is their residue. -/
theorem readAll_kept (cr : CountingReader) (results : List (ReadReturn ε)) :
    (cr.readAll results).downloaded.toInt =
        (cr.downloaded.toInt + bytesRead results).bmod (2 ^ 64) ∧
      (cr.readAll results).callback = cr.callback := by
  induction results generalizing cr with
  | nil => simp [bytesRead, CountingReader.readAll]
  | cons result rest ih =>
    obtain ⟨hdownloaded, hcallback⟩ := ih (cr.read result).after
    refine ⟨?_, hcallback.trans (read_kept cr result).2⟩
    have hstep : (cr.read result).after.downloaded.toInt =
        (cr.downloaded.toInt + result.counted).bmod (2 ^ 64) := by
      rw [(read_kept cr result).1, (count_kept cr result.n).1]
      split
      next hn => rw [Int64.toInt_add, counted_of_pos hn]
      next hn =>
        rw [counted_of_not_pos hn, Int.add_zero]
        exact (Int64.toInt_bmod cr.downloaded).symm
    rw [bytesRead_cons, ← Int.add_assoc, ← Int.bmod_add_bmod, ← hstep]
    exact hdownloaded

/-- Every `Read` of a run is one of a reader in order. -/
theorem prefix_makes (h : Ledger start 0 cr) (hfits : bytesRead results < 2 ^ 63)
    (hfront : front ++ [result] <+: results) :
    Ledger start (bytesRead front) (cr.readAll front) ∧
      bytesRead front + result.counted < 2 ^ 63 ∧
      (cr.readAll front).callback = cr.callback := by
  have hbytes := bytesRead_prefix hfront
  have hcounted := counted_nonneg result
  simp only [bytesRead_append, bytesRead_cons] at hbytes
  rw [bytesRead_nil] at hbytes
  obtain ⟨hledger, hemits⟩ := run_makes h front (by omega)
  rw [Int.zero_add] at hledger
  exact ⟨hledger, by omega, hemits.callback⟩

/-- A report of a run is made by one of its reads. -/
theorem mem_reports {r : ProgressReport} (hm : r ∈ cr.reports results) :
    ∃ front result, front ++ [result] <+: results ∧
      r ∈ ((cr.readAll front).read result).reports := by
  induction results generalizing cr with
  | nil => cases hm
  | cons result rest ih =>
    rcases List.mem_append.mp hm with hm | hm
    · exact ⟨[], result, ⟨rest, rfl⟩, hm⟩
    · obtain ⟨front, later, hfront, hr⟩ := ih hm
      exact ⟨result :: front, later, List.cons_prefix_cons.mpr ⟨rfl, hfront⟩, hr⟩

end Run

end AutoDeploy
