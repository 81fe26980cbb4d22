import AutoDeploy.GoIO
import Mathlib.Algebra.Order.BigOperators.Group.List
import Mathlib.Data.Int.ConditionallyCompleteOrder
import Mathlib.Data.Rat.Cast.Order

namespace AutoDeploy

open GoIO

/-- What one `Read` returns: `n` and `err`. -/
structure ReadReturn (ε : Type) where
  n : Int64
  err : Option (Ending ε)

/-- A `now` function: the value of each of its calls, in nanoseconds, and the calls so far. -/
structure Clock where
  values : ℕ → Int
  calls : ℕ

def Clock.now (clock : Clock) : Int × Clock :=
  (clock.values clock.calls, { clock with calls := clock.calls + 1 })

/-- `Time.Sub`, which stops at the least and at the largest `time.Duration`. -/
def timeSub (t u : Int) : Int64 := Int64.ofIntClamp (t - u)

structure SpeedSample where
  bytes : Int64
  elapsed : Int64
deriving DecidableEq

/-- `callback` says whether there is one. The underlying reader is not a field: each `Read` is
given what it returned. -/
structure CountingReader where
  totalBytes : Int64
  downloaded : Int64
  callback : Bool
  interval : Int64
  lastReport : Int
  startTime : Int
  window : List SpeedSample
  now : Clock
  lastSent : Int64

/-- A call of the callback, whether it was forced, its clock value, and the window at that time. -/
structure ProgressReport where
  force : Bool
  current : Int
  window : List SpeedSample
  downloaded : Int64
  total : Int64
  speedBPS : Option ℚ

/-- What a `Read` returns, the reports that it makes, and the reader behind it. -/
structure ReadCall (ε : Type) where
  result : ReadReturn ε
  reports : List ProgressReport
  after : CountingReader

/-- In nanoseconds. -/
def defaultCountingReaderInterval : Int64 := 500 * 1000000

def speedWindowSize : ℕ := 5

def newCountingReaderWithClock (timeNow : Clock) (totalBytes : Int64) (cb : Bool)
    (now : Option Clock) : CountingReader :=
  let totalBytes := if totalBytes ≤ 0 then -1 else totalBytes
  let (started, now) := (now.getD timeNow).now
  { totalBytes := totalBytes
    downloaded := 0
    callback := cb
    interval := defaultCountingReaderInterval
    lastReport := started
    startTime := started
    window := []
    now := now
    lastSent := 0 }

def newCountingReader (timeNow : Clock) (totalBytes : Int64) (cb : Bool) : CountingReader :=
  newCountingReaderWithClock timeNow totalBytes cb (some timeNow)

/-- The window with a sample behind it, cut to its last samples. -/
def pushSample (window : List SpeedSample) (sample : SpeedSample) : List SpeedSample :=
  let window := window ++ [sample]
  if speedWindowSize < window.length then window.drop (window.length - speedWindowSize)
  else window

/-- The exact quotient of two numbers, or `none` for an infinity or NaN. -/
def divide (a b : ℚ) : Option ℚ := if b = 0 then none else some (a / b)

namespace CountingReader

def rollingSpeed (cr : CountingReader) : Option ℚ :=
  let (bytes, elapsed) := cr.window.foldl
    (fun (bytes, elapsed) sample => (bytes + sample.bytes, elapsed + sample.elapsed))
    ((0, 0) : Int64 × Int64)
  if bytes ≤ 0 ∨ elapsed ≤ 0 then some 0
  else divide bytes.toInt (elapsed.toInt / 1000000000)

/-- What `maybeReport` does once it has decided to report. -/
def report (cr : CountingReader) (force : Bool) (current : Int) :
    List ProgressReport × CountingReader :=
  let elapsed := max (timeSub current cr.lastReport) 0
  let bytesSinceLast := cr.downloaded - cr.lastSent
  let window := if 0 < bytesSinceLast ∧ 0 < elapsed
    then pushSample cr.window ⟨bytesSinceLast, elapsed⟩ else cr.window
  let cr := { cr with window := window, lastReport := current, lastSent := cr.downloaded }
  ([⟨force, current, cr.window, cr.downloaded, cr.totalBytes, cr.rollingSpeed⟩], cr)

def maybeReport (cr : CountingReader) (force : Bool) : List ProgressReport × CountingReader :=
  if cr.callback = false then ([], cr)
  else
    let (current, now) := cr.now.now
    let cr := { cr with now := now }
    if force = false ∧ timeSub current cr.lastReport < cr.interval then ([], cr)
    else cr.report force current

/-- What `Read` does with the count that it got. -/
def count (cr : CountingReader) (n : Int64) : List ProgressReport × CountingReader :=
  if 0 < n then maybeReport { cr with downloaded := cr.downloaded + n } false else ([], cr)

def read {ε : Type} (cr : CountingReader) (result : ReadReturn ε) : ReadCall ε :=
  let (counted, cr) := cr.count result.n
  match result.err with
  | some .eof =>
    let (final, cr) := cr.maybeReport true
    ⟨result, counted ++ final, cr⟩
  | _ => ⟨result, counted, cr⟩

/-- The reader behind reads with these results. -/
def readAll {ε : Type} (cr : CountingReader) (results : List (ReadReturn ε)) : CountingReader :=
  results.foldl (fun cr result => (cr.read result).after) cr

/-- The reports of reads with these results. -/
def reports {ε : Type} (cr : CountingReader) : List (ReadReturn ε) → List ProgressReport
  | [] => []
  | result :: rest => (cr.read result).reports ++ (cr.read result).after.reports rest

end CountingReader

def windowBytes (window : List SpeedSample) : Int :=
  (window.map fun sample => sample.bytes.toInt).sum

def windowTime (window : List SpeedSample) : Int :=
  (window.map fun sample => sample.elapsed.toInt).sum

section Int64

theorem toInt_add_eq {a b : Int64} (ha : 0 ≤ a.toInt) (hb : 0 ≤ b.toInt)
    (hlt : a.toInt + b.toInt < 2 ^ 63) : (a + b).toInt = a.toInt + b.toInt := by
  rw [Int64.toInt_add]
  apply Int.bmod_eq_of_le <;> omega

theorem timeSub_bounds {t u : Int} (h : u ≤ t) :
    0 ≤ (timeSub t u).toInt ∧ (timeSub t u).toInt ≤ t - u := by
  have hmax := Int64.toInt_maxValue
  have hmin := Int64.toInt_minValue
  unfold timeSub
  by_cases hfits : t - u ≤ Int64.maxValue.toInt
  · rw [Int64.toInt_ofIntClamp (by omega) hfits]
    omega
  · unfold Int64.ofIntClamp
    rw [dif_pos (by omega), dif_neg hfits]
    omega

theorem max_timeSub {t u : Int} (h : u ≤ t) : max (timeSub t u) 0 = timeSub t u := by
  have hpos := (timeSub_bounds h).1
  change (if timeSub t u ≤ 0 then 0 else timeSub t u) = _
  split
  next hle =>
    rw [Int64.le_iff_toInt_le, Int64.toInt_zero] at hle
    apply Int64.toInt.inj
    rw [Int64.toInt_zero]
    omega
  next => rfl

/-- The wrapped totals of a window are the residues of its totals. -/
theorem foldl_totals (window : List SpeedSample) (bytes elapsed : Int64) :
    let totals := window.foldl
      (fun (bytes, elapsed) sample => (bytes + sample.bytes, elapsed + sample.elapsed))
      (bytes, elapsed)
    totals.1.toInt = (bytes.toInt + windowBytes window).bmod (2 ^ 64) ∧
      totals.2.toInt = (elapsed.toInt + windowTime window).bmod (2 ^ 64) := by
  induction window generalizing bytes elapsed with
  | nil => simp [windowBytes, windowTime]
  | cons sample rest ih =>
    obtain ⟨hbytes, helapsed⟩ := ih (bytes + sample.bytes) (elapsed + sample.elapsed)
    refine ⟨?_, ?_⟩
    · rw [List.foldl_cons, hbytes, Int64.toInt_add, Int.bmod_add_bmod, Int.add_assoc]
      rfl
    · rw [List.foldl_cons, helapsed, Int64.toInt_add, Int.bmod_add_bmod, Int.add_assoc]
      rfl

end Int64

/-- At most five samples, each of some bytes and some time, and no more bytes than these. -/
structure WindowSound (window : List SpeedSample) (bytes : Int) : Prop where
  bounded : window.length ≤ 5
  positive : ∀ sample ∈ window, 0 < sample.bytes ∧ 0 < sample.elapsed
  total : windowBytes window ≤ bytes

/-- The speed is the bytes of the window over its time in seconds, or 0 without any sample. -/
def SpeedExact (window : List SpeedSample) (speed : Option ℚ) : Prop :=
  (window = [] ∧ speed = some 0) ∨ (0 < windowTime window ∧
    speed = some ((windowBytes window : ℚ) / ((windowTime window : ℚ) / 1000000000)))

section Window

variable {window : List SpeedSample} {sample : SpeedSample} {bytes bytes' : Int}

theorem WindowSound.mono (h : WindowSound window bytes) (hle : bytes ≤ bytes') :
    WindowSound window bytes' :=
  ⟨h.bounded, h.positive, h.total.trans hle⟩

theorem sample_positive (h : 0 < sample.bytes ∧ 0 < sample.elapsed) :
    0 < sample.bytes.toInt ∧ 0 < sample.elapsed.toInt := by
  rwa [Int64.lt_iff_toInt_lt, Int64.lt_iff_toInt_lt, Int64.toInt_zero] at h

theorem totals_pos (hpos : ∀ sample ∈ window, 0 < sample.bytes ∧ 0 < sample.elapsed)
    (hne : window ≠ []) : 0 < windowBytes window ∧ 0 < windowTime window := by
  induction window with
  | nil => exact absurd rfl hne
  | cons sample rest ih =>
    obtain ⟨hbytes, helapsed⟩ := sample_positive (hpos sample List.mem_cons_self)
    simp only [windowBytes, windowTime, List.map_cons, List.sum_cons] at ih ⊢
    by_cases hrest : rest = []
    · subst hrest
      simpa using ⟨hbytes, helapsed⟩
    · have hsum := ih (fun other hm => hpos other (List.mem_cons_of_mem _ hm)) hrest
      omega

theorem totals_nonneg (hpos : ∀ sample ∈ window, 0 < sample.bytes ∧ 0 < sample.elapsed) :
    0 ≤ windowBytes window ∧ 0 ≤ windowTime window := by
  by_cases hne : window = []
  · subst hne
    exact ⟨le_rfl, le_rfl⟩
  · have hsum := totals_pos hpos hne
    omega

theorem totals_append (xs ys : List SpeedSample) :
    windowBytes (xs ++ ys) = windowBytes xs + windowBytes ys ∧
      windowTime (xs ++ ys) = windowTime xs + windowTime ys := by
  simp [windowBytes, windowTime]

/-- The window with the new sample is the end of all samples. -/
theorem pushSample_suffix (window : List SpeedSample) (sample : SpeedSample) :
    ∃ old, old ++ pushSample window sample = window ++ [sample] := by
  unfold pushSample
  dsimp only
  split
  next => exact ⟨_, List.take_append_drop _ _⟩
  next => exact ⟨[], rfl⟩

theorem pushSample_length (window : List SpeedSample) (sample : SpeedSample) :
    (pushSample window sample).length ≤ 5 := by
  unfold pushSample speedWindowSize
  dsimp only
  split
  next => rw [List.length_drop]; omega
  next => omega

/-- A sample of the bytes behind those of the window keeps the window sound. -/
theorem pushSample_sound {b e : Int64} (h : WindowSound window bytes) (hb : 0 < b) (he : 0 < e) :
    WindowSound (pushSample window ⟨b, e⟩) (bytes + b.toInt) ∧
      windowTime (pushSample window ⟨b, e⟩) ≤ windowTime window + e.toInt := by
  have hall : ∀ sample ∈ window ++ [⟨b, e⟩], 0 < sample.bytes ∧ 0 < sample.elapsed := by
    intro sample hm
    rcases List.mem_append.mp hm with hm | hm
    · exact h.positive sample hm
    · rw [List.mem_singleton.mp hm]
      exact ⟨hb, he⟩
  obtain ⟨old, hold⟩ := pushSample_suffix window ⟨b, e⟩
  rw [← hold] at hall
  have hdropped := totals_nonneg fun sample hm => hall sample (List.mem_append_left _ hm)
  obtain ⟨hbytes, htime⟩ := totals_append old (pushSample window ⟨b, e⟩)
  rw [hold, (totals_append window _).1] at hbytes
  rw [hold, (totals_append window _).2] at htime
  have htotal := h.total
  have hsample : windowBytes [⟨b, e⟩] = b.toInt ∧ windowTime [⟨b, e⟩] = e.toInt := by
    simp [windowBytes, windowTime]
  refine ⟨⟨pushSample_length _ _, ?_, by omega⟩, by omega⟩
  intro sample hm
  exact hall sample (List.mem_append_right _ hm)

end Window

section Speed

variable {cr : CountingReader} {bytes : Int}

theorem divide_pos {bytes elapsed : Int} (hb : 0 < bytes) (he : 0 < elapsed) :
    divide bytes ((elapsed : ℚ) / 1000000000) = some (bytes / ((elapsed : ℚ) / 1000000000)) ∧
      (0 : ℚ) < bytes / ((elapsed : ℚ) / 1000000000) := by
  have hbytes : (0 : ℚ) < bytes := Int.cast_pos.mpr hb
  have hseconds : (0 : ℚ) < (elapsed : ℚ) / 1000000000 :=
    div_pos (Int.cast_pos.mpr he) (by norm_num)
  exact ⟨if_neg hseconds.ne', div_pos hbytes hseconds⟩

/-- Nothing is divided by zero, and no speed is below it, also where the totals wrap. -/
theorem rollingSpeed_nonneg (cr : CountingReader) :
    ∃ speed, cr.rollingSpeed = some speed ∧ 0 ≤ speed := by
  unfold CountingReader.rollingSpeed
  dsimp only
  split
  next => exact ⟨0, rfl, le_rfl⟩
  next hpos =>
    simp only [not_or, Int64.le_iff_toInt_le, Int64.toInt_zero, not_le] at hpos
    obtain ⟨hsome, hspeed⟩ := divide_pos hpos.1 hpos.2
    exact ⟨_, hsome, hspeed.le⟩

theorem rollingSpeed_eq (h : WindowSound cr.window bytes) (hbytes : bytes < 2 ^ 63) :
    cr.rollingSpeed = if windowBytes cr.window ≤ 0 ∨ (windowTime cr.window).bmod (2 ^ 64) ≤ 0
      then some 0 else divide (windowBytes cr.window)
        (((windowTime cr.window).bmod (2 ^ 64) : Int) / 1000000000) := by
  have htotals := foldl_totals cr.window 0 0
  have htotal := h.total
  have hnonneg := (totals_nonneg h.positive).1
  have hfits : (windowBytes cr.window).bmod (2 ^ 64) = windowBytes cr.window := by
    apply Int.bmod_eq_of_le <;> omega
  dsimp only at htotals
  rw [Int64.toInt_zero, zero_add, zero_add, hfits] at htotals
  unfold CountingReader.rollingSpeed
  dsimp only
  rw [htotals.1, htotals.2]
  simp only [Int64.le_iff_toInt_le, Int64.toInt_zero, htotals.1, htotals.2]

/-- Other times give other speeds. -/
theorem divide_ne {bytes elapsed elapsed' : Int} (hb : 0 < bytes) (hne : elapsed ≠ elapsed') :
    (bytes : ℚ) / ((elapsed : ℚ) / 1000000000) ≠ bytes / ((elapsed' : ℚ) / 1000000000) := by
  intro hsame
  have hbytes : (bytes : ℚ) ≠ 0 := (Int.cast_pos.mpr hb).ne'
  rw [div_eq_mul_inv (bytes : ℚ), div_eq_mul_inv (bytes : ℚ), mul_right_inj' hbytes, inv_inj,
    div_left_inj' (by norm_num)] at hsame
  exact hne (Int.cast_inj.mp hsame)

/-- The speed is exact as long as the time of the window fits into 63 bits. -/
theorem speedExact_iff (h : WindowSound cr.window bytes) (hbytes : bytes < 2 ^ 63) :
    SpeedExact cr.window cr.rollingSpeed ↔ windowTime cr.window < 2 ^ 63 := by
  rw [rollingSpeed_eq h hbytes]
  by_cases hne : cr.window = []
  · simp [SpeedExact, hne, windowBytes, windowTime]
  · obtain ⟨hb, ht⟩ := totals_pos h.positive hne
    obtain ⟨hsome, hspeed⟩ := divide_pos hb ht
    simp only [SpeedExact, hne, false_and, false_or, ht, true_and, not_le.mpr hb]
    constructor
    · intro hexact
      by_contra hlong
      have hwrapped : (windowTime cr.window).bmod (2 ^ 64) < 2 ^ 63 := Int.bmod_lt (by decide)
      split at hexact
      next => exact hspeed.ne (Option.some.inj hexact)
      next hpos =>
        rw [(divide_pos hb (not_le.mp hpos)).1] at hexact
        exact divide_ne hb (by omega) (Option.some.inj hexact)
    · intro hshort
      have hfits : (windowTime cr.window).bmod (2 ^ 64) = windowTime cr.window := by
        apply Int.bmod_eq_of_le <;> omega
      rw [hfits, if_neg (by omega), hsome]

end Speed

end AutoDeploy
