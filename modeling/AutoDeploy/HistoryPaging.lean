import AutoDeploy.Calls
import AutoDeploy.GoStrconv
import Mathlib.Data.List.Sort

namespace AutoDeploy

open Interleaving

/-- The query parameters of the history endpoint, each empty where it is missing. -/
structure HistoryQuery where
  page : List UInt8
  pageSize : List UInt8
  appID : String

/-- What `parseHistoryPaging` returns. `int` has 64 bits. -/
structure HistoryPaging where
  page : Int64
  pageSize : Int64
  offset : Int64
deriving DecidableEq

def historyDefaultPageSize : Int64 := 20

def historyMaxPageSize : Int64 := 100

/-- The number that a parameter holds, if `strconv.Atoi` reads one above the bound. -/
def atoiAbove (bound : Int64) (text : List UInt8) (default : Int64) : Int64 :=
  match GoStrconv.parseInt text with
  | .ok n => if bound < n then n else default
  | .error _ => default

def parseHistoryPaging (c : HistoryQuery) : HistoryPaging :=
  let page := atoiAbove 1 c.page 1
  let asked := atoiAbove 0 c.pageSize historyDefaultPageSize
  let pageSize := if historyMaxPageSize < asked then historyMaxPageSize else asked
  ⟨page, pageSize, (page - 1) * pageSize⟩

/-- `ORDER BY seq DESC`. -/
def newestFirst (rows : List JobRow) : List JobRow :=
  rows.mergeSort fun row other => decide (other.seq ≤ row.seq)

/-- `LIMIT ? OFFSET ?`: a negative offset skips nothing, and a negative limit is none. -/
def limitOffset {α : Type} (limit offset : Int64) (rows : List α) : List α :=
  let rest := rows.drop offset.toInt.toNat
  if limit < 0 then rest else rest.take limit.toInt.toNat

namespace Jobs

def historyOf (jobs : Jobs) (appID : String) : List JobRow :=
  newestFirst (jobs.rows.filter fun row => row.appID == appID)

def allHistory (jobs : Jobs) : List JobRow := newestFirst jobs.rows

def listHistoryPaged (jobs : Jobs) (appID : String) (limit offset : Int64) : List JobRow :=
  limitOffset limit offset (jobs.historyOf appID)

def listAllHistoryPaged (jobs : Jobs) (limit offset : Int64) : List JobRow :=
  limitOffset limit offset jobs.allHistory

def countHistory (jobs : Jobs) (appID : String) : ℕ :=
  jobs.rows.countP fun row => row.appID == appID

def countAllHistory (jobs : Jobs) : ℕ := jobs.rows.length

end Jobs

/-- A page is sent with the apps that its rows are joined with. -/
inductive HistoryResponse
  | error (status : ℕ) (message : String)
  | page (apps : List App) (history : List JobRow) (total : ℕ) (paging : HistoryPaging)

def historyFailed : HistoryResponse := .error 500 "Failed to list history"

/-- `ListHistoryHertz`. -/
def listHistory (c : HistoryQuery) : Op HistoryResponse := do
  let paging := parseHistoryPaging c
  if c.appID ≠ "" then
    match ← getApp c.appID with
    | .error _ => return .error 404 "App not found"
    | .ok app =>
      match ← query fun s => s.jobs.countHistory app.id with
      | .error _ => return historyFailed
      | .ok total =>
        match ← query fun s =>
          s.jobs.listHistoryPaged app.id paging.pageSize paging.offset with
        | .error _ => return historyFailed
        | .ok jobs => return .page [app] jobs total paging
  else
    match ← listApps with
    | .error _ => return .error 500 "Failed to list apps"
    | .ok apps =>
      match ← query fun s => s.jobs.countAllHistory with
      | .error _ => return historyFailed
      | .ok total =>
        match ← query fun s => s.jobs.listAllHistoryPaged paging.pageSize paging.offset with
        | .error _ => return historyFailed
        | .ok jobs => return .page apps jobs total paging

/-- The history that a request pages through: that of an app, or of all apps. -/
def HistoryQuery.history (c : HistoryQuery) (jobs : Jobs) : List JobRow :=
  if c.appID ≠ "" then jobs.historyOf c.appID else jobs.allHistory

/-- The rows that the endpoint reads for a request. -/
def HistoryQuery.rows (c : HistoryQuery) (jobs : Jobs) : List JobRow :=
  limitOffset (parseHistoryPaging c).pageSize (parseHistoryPaging c).offset (c.history jobs)

def HistoryPaging.number (paging : HistoryPaging) : ℕ := paging.page.toInt.toNat

def HistoryPaging.size (paging : HistoryPaging) : ℕ := paging.pageSize.toInt.toNat

/-- The page is what stands between its two positions, counted in unbounded numbers, and the
query got an offset that is not negative. -/
structure PageExact (paging : HistoryPaging) (history page : List JobRow) : Prop where
  items : page = (history.drop ((paging.number - 1) * paging.size)).take paging.size
  offset : 0 ≤ paging.offset

/-- The first position of the page fits into 63 bits, or its low 64 bits are a position that is
not negative and past the end. -/
def HistoryPaging.InRange (paging : HistoryPaging) (total : ℕ) : Prop :=
  (paging.number - 1) * paging.size < 2 ^ 63 ∨
    (total ≤ (paging.number - 1) * paging.size % 2 ^ 64 ∧
      (paging.number - 1) * paging.size % 2 ^ 64 < 2 ^ 63)

section Paging

variable {c : HistoryQuery} {jobs : Jobs}

theorem atoiAbove_bounds {bound default : Int64} (text : List UInt8) (h : bound < default) :
    bound < atoiAbove bound text default := by
  unfold atoiAbove
  split
  next n _ =>
    split
    next hn => exact hn
    next => exact h
  next => exact h

theorem number_pos (c : HistoryQuery) : 1 ≤ (parseHistoryPaging c).number := by
  have hpage : (1 : Int64) ≤ atoiAbove 1 c.page 1 := by
    unfold atoiAbove
    split
    next n _ =>
      split
      next hn => exact Int64.le_of_lt hn
      next => exact Int64.le_refl 1
    next => exact Int64.le_refl 1
  have hint := Int64.le_iff_toInt_le.mp hpage
  have hone := Int64.toInt_one
  show 1 ≤ (atoiAbove 1 c.page 1).toInt.toNat
  omega

theorem size_bounds (c : HistoryQuery) :
    0 < (parseHistoryPaging c).pageSize.toInt ∧ (parseHistoryPaging c).pageSize.toInt ≤ 100 := by
  have hdefault : (0 : Int64) < historyDefaultPageSize := by decide
  have hasked := atoiAbove_bounds c.pageSize hdefault
  have hpos := Int64.lt_iff_toInt_lt.mp hasked
  have hzero := Int64.toInt_zero
  have hmax : historyMaxPageSize.toInt = 100 := by decide
  unfold parseHistoryPaging
  dsimp only
  split
  next => omega
  next hle =>
    have hbound := Int64.lt_iff_toInt_lt.not.mp hle
    omega

/-- The offset is the first position of the page, modulo 2^64. -/
theorem offset_toInt (c : HistoryQuery) : (parseHistoryPaging c).offset.toInt =
    Int.bmod ((((parseHistoryPaging c).number - 1) * (parseHistoryPaging c).size : ℕ) : ℤ)
      (2 ^ 64) := by
  have hnumber := number_pos c
  obtain ⟨hsize, -⟩ := size_bounds c
  have hpage : (parseHistoryPaging c).page.toInt - 1 =
      (((parseHistoryPaging c).number - 1 : ℕ) : ℤ) := by
    unfold HistoryPaging.number at hnumber ⊢
    omega
  have hpageSize : (parseHistoryPaging c).pageSize.toInt = ((parseHistoryPaging c).size : ℤ) := by
    unfold HistoryPaging.size
    omega
  have hone := Int64.toInt_one
  have hlow := (parseHistoryPaging c).page.le_toInt
  have hhigh := (parseHistoryPaging c).page.toInt_lt
  have hprevious : ((parseHistoryPaging c).page - 1).toInt =
      (((parseHistoryPaging c).number - 1 : ℕ) : ℤ) := by
    rw [Int64.toInt_sub, hone, hpage]
    apply Int.bmod_eq_of_le <;> omega
  show (((parseHistoryPaging c).page - 1) * (parseHistoryPaging c).pageSize).toInt = _
  rw [Int64.toInt_mul, hprevious, hpageSize]
  norm_cast

/-- What the low 64 bits of a position are as an `int`. -/
theorem bmod_cases (n : ℕ) :
    (n < 2 ^ 63 ∧ Int.bmod (n : ℤ) (2 ^ 64) = n) ∨
    (2 ^ 63 ≤ n ∧ n % 2 ^ 64 < 2 ^ 63 ∧ Int.bmod (n : ℤ) (2 ^ 64) = (n % 2 ^ 64 : ℕ)) ∨
    (2 ^ 63 ≤ n ∧ 2 ^ 63 ≤ n % 2 ^ 64 ∧ Int.bmod (n : ℤ) (2 ^ 64) < 0) := by
  have hmod : (n : ℤ) % ((2 ^ 64 : ℕ) : ℤ) = ((n % 2 ^ 64 : ℕ) : ℤ) := by norm_cast
  have hlt : n % 2 ^ 64 < 2 ^ 64 := Nat.mod_lt _ (by decide)
  rw [Int.bmod_def, hmod]
  split
  next h => omega
  next h => omega

theorem mergeSort_nodup {rows : List JobRow} (h : rows.Nodup) : (newestFirst rows).Nodup :=
  (List.mergeSort_perm rows _).nodup_iff.mpr h

theorem history_nodup (c : HistoryQuery) (jobs : Jobs) : (c.history jobs).Nodup := by
  have hrows : jobs.rows.Nodup := jobs.primaryKey.of_map JobRow.id
  unfold HistoryQuery.history
  split
  next => exact mergeSort_nodup (hrows.filter _)
  next => exact mergeSort_nodup hrows

/-- Two windows of one list with different positions only agree if they are empty. -/
theorem window_eq_iff {α : Type} {l : List α} (h : l.Nodup) {near far size : ℕ}
    (hlt : near < far) (hsize : 0 < size) :
    (l.drop near).take size = (l.drop far).take size ↔ l.length ≤ near := by
  constructor
  · intro heq
    by_contra hlong
    have hnear : near < l.length := by omega
    have hhead : ((l.drop near).take size)[0]? = some l[near] := by
      rw [List.getElem?_take_of_lt hsize, List.getElem?_drop, Nat.add_zero,
        List.getElem?_eq_getElem hnear]
    rw [heq, List.getElem?_take_of_lt hsize, List.getElem?_drop, Nat.add_zero] at hhead
    obtain ⟨hfar, hsame⟩ := List.getElem?_eq_some_iff.mp hhead
    have hindex := (List.Nodup.getElem_inj_iff h).mp hsame
    omega
  · intro hshort
    rw [List.drop_eq_nil_of_le hshort, List.drop_eq_nil_of_le (by omega)]

theorem rows_eq (c : HistoryQuery) (jobs : Jobs) : c.rows jobs =
    ((c.history jobs).drop (parseHistoryPaging c).offset.toInt.toNat).take
      (parseHistoryPaging c).size := by
  obtain ⟨hsize, -⟩ := size_bounds c
  have hlimit : ¬ (parseHistoryPaging c).pageSize < 0 := by
    intro hneg
    have hint := Int64.lt_iff_toInt_lt.mp hneg
    have hzero := Int64.toInt_zero
    omega
  unfold HistoryQuery.rows limitOffset
  rw [if_neg hlimit]
  rfl

theorem offset_nonneg_iff : 0 ≤ (parseHistoryPaging c).offset ↔
    0 ≤ (parseHistoryPaging c).offset.toInt := by
  have hzero := Int64.toInt_zero
  rw [Int64.le_iff_toInt_le, hzero]

/-- A request is answered with its page exactly when the first position of the page does not
overflow into one that shows rows. -/
theorem rows_exact_iff (c : HistoryQuery) (jobs : Jobs) :
    PageExact (parseHistoryPaging c) (c.history jobs) (c.rows jobs) ↔
      (parseHistoryPaging c).InRange (c.history jobs).length := by
  have hsize : 0 < (parseHistoryPaging c).size := by
    obtain ⟨hpositive, -⟩ := size_bounds c
    unfold HistoryPaging.size
    omega
  have hoffset := offset_toInt c
  have hrows := rows_eq c jobs
  unfold HistoryPaging.InRange
  rcases bmod_cases (((parseHistoryPaging c).number - 1) * (parseHistoryPaging c).size) with
    ⟨hsmall, hexact⟩ | ⟨hlarge, hlow, hwrapped⟩ | ⟨hlarge, hhigh, hnegative⟩
  · rw [hexact] at hoffset
    constructor
    · exact fun _ => Or.inl hsmall
    · intro _
      refine ⟨?_, offset_nonneg_iff.mpr (by omega)⟩
      rw [hrows, hoffset, Int.toNat_natCast]
  · rw [hwrapped] at hoffset
    rw [hoffset, Int.toNat_natCast] at hrows
    have hwindow := window_eq_iff (history_nodup c jobs)
      (show ((parseHistoryPaging c).number - 1) * (parseHistoryPaging c).size % 2 ^ 64 <
        ((parseHistoryPaging c).number - 1) * (parseHistoryPaging c).size by omega) hsize
    constructor
    · intro hpage
      exact Or.inr ⟨hwindow.mp (hrows.symm.trans hpage.items), hlow⟩
    · rintro (hsmall | ⟨hpast, -⟩)
      · omega
      · exact ⟨hrows.trans (hwindow.mpr hpast), offset_nonneg_iff.mpr (by omega)⟩
  · constructor
    · intro hpage
      have hnonneg := offset_nonneg_iff.mp hpage.offset
      omega
    · rintro (hsmall | ⟨-, hlow⟩) <;> omega

end Paging

section Partition

variable {c : HistoryQuery} {jobs : Jobs}

theorem windows_flatMap {α : Type} (l : List α) (size n : ℕ) :
    (List.range n).flatMap (fun i => (l.drop (i * size)).take size) = l.take (n * size) := by
  induction n with
  | zero => simp
  | succ n ih =>
    rw [List.range_succ, List.flatMap_append, ih, List.flatMap_singleton, Nat.succ_mul,
      ← List.take_add]

theorem ofInt_toInt {n : ℕ} (h : n < 2 ^ 63) : (Int64.ofInt n).toInt = n := by
  apply Int64.toInt_ofInt_of_le <;> omega

theorem parse_page {n : ℕ} (hpos : 0 < n) (hlt : n < 2 ^ 63)
    (hpage : c.page = GoStrconv.formatInt (Int64.ofInt n)) :
    (parseHistoryPaging c).number = n := by
  have hint := ofInt_toInt hlt
  have hone := Int64.toInt_one
  show (atoiAbove 1 c.page 1).toInt.toNat = n
  unfold atoiAbove
  rw [hpage, GoStrconv.parseInt_formatInt]
  dsimp only
  split
  next => omega
  next hle =>
    have hsmall := Int64.lt_iff_toInt_lt.not.mp hle
    omega

/-- The same request for another page. -/
def HistoryQuery.onPage (c : HistoryQuery) (n : ℕ) : HistoryQuery :=
  { c with page := GoStrconv.formatInt (Int64.ofInt n) }

/-- How many pages a history of this length has. -/
def pageCount (total size : ℕ) : ℕ := (total + size - 1) / size

theorem pageCount_spec (total : ℕ) {size i : ℕ} (hsize : 0 < size) :
    i < pageCount total size ↔ i * size < total := by
  unfold pageCount
  rw [Nat.lt_div_iff_mul_lt hsize]
  omega

theorem onPage_rows {i : ℕ} (hi : i * (parseHistoryPaging c).size < (c.history jobs).length)
    (htotal : (c.history jobs).length < 2 ^ 63) :
    (c.onPage (i + 1)).rows jobs = ((c.history jobs).drop
      (i * (parseHistoryPaging c).size)).take (parseHistoryPaging c).size := by
  have hsize : 0 < (parseHistoryPaging c).size := by
    obtain ⟨hpositive, -⟩ := size_bounds c
    unfold HistoryPaging.size
    omega
  have hle : i ≤ i * (parseHistoryPaging c).size := Nat.le_mul_of_pos_right i hsize
  have hnumber : (parseHistoryPaging (c.onPage (i + 1))).number = i + 1 :=
    parse_page (by omega) (by omega) rfl
  have hsame : (parseHistoryPaging (c.onPage (i + 1))).size = (parseHistoryPaging c).size := rfl
  have hrange : (parseHistoryPaging (c.onPage (i + 1))).InRange
      ((c.onPage (i + 1)).history jobs).length := by
    refine Or.inl ?_
    rw [hnumber, hsame, Nat.add_sub_cancel]
    omega
  have hexact := ((rows_exact_iff (c.onPage (i + 1)) jobs).mpr hrange).items
  rw [hnumber, hsame, Nat.add_sub_cancel] at hexact
  exact hexact

/-- The pages of a history, asked for one after the other, are the whole of it. -/
theorem pages_partition (htotal : (c.history jobs).length < 2 ^ 63) :
    (List.range (pageCount (c.history jobs).length (parseHistoryPaging c).size)).flatMap
      (fun i => (c.onPage (i + 1)).rows jobs) = c.history jobs := by
  have hsize : 0 < (parseHistoryPaging c).size := by
    obtain ⟨hpositive, -⟩ := size_bounds c
    unfold HistoryPaging.size
    omega
  have hpages : ∀ i ∈ List.range (pageCount (c.history jobs).length (parseHistoryPaging c).size),
      (c.onPage (i + 1)).rows jobs = ((c.history jobs).drop
        (i * (parseHistoryPaging c).size)).take (parseHistoryPaging c).size :=
    fun i hi => onPage_rows ((pageCount_spec _ hsize).mp (List.mem_range.mp hi)) htotal
  have hlast := (pageCount_spec (c.history jobs).length hsize).not.mp
    (Nat.lt_irrefl (pageCount (c.history jobs).length (parseHistoryPaging c).size))
  rw [List.flatMap_congr hpages, windows_flatMap, List.take_of_length_le (by omega)]

end Partition

section Handler

/-- A page shows rows as they were at one moment of the request, and the handler writes
nothing. -/
def ShowsPage (c : HistoryQuery) (own : List ServerStep) : HistoryResponse → Prop
  | .error _ _ => True
  | .page _ rows _ paging =>
    paging = parseHistoryPaging c ∧ ∃ step ∈ own, rows = c.rows step.before.jobs

theorem safe_read {α : Type} {select : Server → α} {own : List ServerStep} :
    (query select).Safe (fun _ => True) (fun _ step => step.after = step.before)
      (fun own value => ∀ a, value = .ok a → ∃ step ∈ own, a = select step.before) own := by
  apply Prog.safe_atomic
  intro s k _
  cases k.fault with
  | some text => exact ⟨rfl, by simp⟩
  | none =>
    refine ⟨rfl, ?_⟩
    rintro a ⟨⟩
    exact ⟨_, List.mem_append_right _ (List.mem_singleton_self _), rfl⟩

theorem safe_getApp_id {id : String} {own : List ServerStep} :
    (getApp id).Safe (fun _ => True) (fun _ step => step.after = step.before)
      (fun _ value => ∀ app, value = .ok app → app.id = id) own := by
  apply Prog.safe_bind safe_read
  intro own value h
  match value, h with
  | .error e, _ => exact fun app he => by cases he
  | .ok none, _ => exact fun app he => by cases he
  | .ok (some app), h =>
    obtain ⟨step, -, hfound⟩ := h _ rfl
    rintro found ⟨⟩
    simpa using List.find?_some hfound.symm

theorem safe_listHistory (c : HistoryQuery) :
    (listHistory c).Safe (fun _ => True) (fun _ step => step.after = step.before)
      (ShowsPage c) [] := by
  unfold listHistory
  dsimp only
  split
  next happ =>
    apply Prog.safe_bind safe_getApp_id
    intro own found hfound
    match found, hfound with
    | .error e, _ => exact trivial
    | .ok app, hfound =>
      have hid := hfound app rfl
      apply Prog.safe_bind safe_read
      intro own total _
      cases total with
      | error e => exact trivial
      | ok total =>
        apply Prog.safe_bind safe_read
        intro own jobs hjobs
        cases jobs with
        | error e => exact trivial
        | ok jobs =>
          obtain ⟨step, hm, hrows⟩ := hjobs jobs rfl
          refine ⟨rfl, step, hm, ?_⟩
          rw [hrows, hid]
          unfold HistoryQuery.rows HistoryQuery.history
          rw [if_pos happ]
          rfl
  next happ =>
    have hlist : (listApps).Safe (fun _ : Server => True)
        (fun _ step => step.after = step.before) (fun _ _ => True) [] := by
      apply Prog.safe_bind safe_read
      intro own value _
      cases value with
      | error e => exact trivial
      | ok apps => exact trivial
    apply Prog.safe_bind hlist
    intro own apps _
    cases apps with
    | error e => exact trivial
    | ok apps =>
      apply Prog.safe_bind safe_read
      intro own total _
      cases total with
      | error e => exact trivial
      | ok total =>
        apply Prog.safe_bind safe_read
        intro own jobs hjobs
        cases jobs with
        | error e => exact trivial
        | ok jobs =>
          obtain ⟨step, hm, hrows⟩ := hjobs jobs rfl
          refine ⟨rfl, step, hm, ?_⟩
          rw [hrows]
          unfold HistoryQuery.rows HistoryQuery.history
          rw [if_neg happ]
          rfl

end Handler

/-- What the history endpoint does for one request. -/
structure PagesHistory (c : HistoryQuery) : Prop where
  shows : (listHistory c).Safe (fun _ => True) (fun _ step => step.after = step.before)
    (ShowsPage c) []
  exact_iff : ∀ jobs : Jobs, PageExact (parseHistoryPaging c) (c.history jobs) (c.rows jobs) ↔
    (parseHistoryPaging c).InRange (c.history jobs).length
  partition : ∀ jobs : Jobs, (c.history jobs).length < 2 ^ 63 →
    (List.range (pageCount (c.history jobs).length (parseHistoryPaging c).size)).flatMap
      (fun i => (c.onPage (i + 1)).rows jobs) = c.history jobs

/-- Every answer shows the rows of one moment, they are the page that was asked for exactly when
its first position is in range, and the pages of a history that can be counted partition it. -/
theorem historyPage_iff (c : HistoryQuery) : PagesHistory c :=
  ⟨safe_listHistory c, rows_exact_iff c, fun _ htotal => pages_partition htotal⟩

/-- Page 2^62 + 1 of two rows each, for all apps. -/
def overflowingPage : HistoryQuery := ⟨GoStrconv.formatInt 4611686018427387905, [50], ""⟩

def oneJob : Jobs where
  rows := [⟨"j7", 7, "a", "v2", .pending, .webhook, none, none, 0, 0, 0, ""⟩]
  primaryKey := by decide
  activeUnique := by decide

/-- The offset wraps to a negative one, and the newest job is shown again. -/
theorem overflowingPage_wraps :
    (parseHistoryPaging overflowingPage).offset = -9223372036854775808 ∧
    overflowingPage.rows oneJob = oneJob.rows ∧
    ¬ PageExact (parseHistoryPaging overflowingPage) (overflowingPage.history oneJob)
      (overflowingPage.rows oneJob) := by
  refine ⟨by decide, by decide +kernel, ?_⟩
  intro h
  exact absurd h.offset (by decide)

end AutoDeploy
