import AutoDeploy.Redirects

namespace AutoDeploy.Redirects

open UriSyntax

def maxAttempts : ℕ := 3

/-- In seconds. -/
def backoffs : List ℕ := [1, 2, 4]

/-- What one attempt takes from outside: the error of the context in front of it, its rounds, and
the error of the context behind a failure. -/
structure Attempt where
  ctxErr : Option GoError
  rounds : ℕ → Round
  ctxErrAfter : Option GoError

/-- What a download with its retries has done: the requests, the responses of the attempts whose
bodies it has closed, and the seconds that it has slept, each in their order, and the result. The
bodies of the redirects, which `doWithRedirects` never closes, are left out. -/
structure Retried where
  requests : List Request
  closed : List HttpResponse
  slept : List ℕ
  result : Except GoError HttpResponse

/-- What an attempt did, in front of what follows on it. -/
def Retried.behind (requests : List Request) (closed : List HttpResponse) (slept : List ℕ)
    (rest : Retried) : Retried :=
  ⟨requests ++ rest.requests, closed ++ rest.closed, slept ++ rest.slept, rest.result⟩

def statusErr (resp : HttpResponse) : GoError := .new ("HTTP " ++ toString resp.statusCode)

/-- The sleep behind an attempt, which the last one does without. -/
def pause (attempt : ℕ) : List ℕ :=
  if attempt < maxAttempts - 1 then (backoffs[attempt]?).toList else []

/-- The attempts that are left of `DownloadWithRetryContext`, from this one on. -/
def retryFrom (url : String) (headers : Headers) (attempts : ℕ → Attempt) :
    (left attempt : ℕ) → (lastErr : GoError) → Retried
  | 0, _, lastErr => ⟨[], [], [],
    .error (.errorf ("download failed after " ++ toString maxAttempts ++ " attempts: ") lastErr)⟩
  | left + 1, attempt, _ =>
    match (attempts attempt).ctxErr with
    | some err => ⟨[], [], [], .error err⟩
    | none =>
      let fetched := doWithRedirects url headers (attempts attempt).rounds
      match fetched.result with
      | .error e =>
        match (attempts attempt).ctxErrAfter with
        | some err => ⟨fetched.requests, [], [], .error err⟩
        | none =>
          if e.transient then
            .behind fetched.requests [] (pause attempt)
              (retryFrom url headers attempts left (attempt + 1) e.err)
          else ⟨fetched.requests, [], [], .error e.err⟩
      | .ok resp =>
        if isRetriableStatus resp.statusCode then
          .behind fetched.requests [resp] (pause attempt)
            (retryFrom url headers attempts left (attempt + 1) (statusErr resp))
        else if resp.statusCode = 200 then ⟨fetched.requests, [], [], .ok resp⟩
        else ⟨fetched.requests, [resp], [], .error (statusErr resp)⟩

def downloadWithRetryContext (url : String) (headers : Headers) (attempts : ℕ → Attempt) :
    Retried :=
  retryFrom url headers attempts maxAttempts 0 (.new "")

namespace Attempt

variable (url : String) (headers : Headers) (a : Attempt)

def requests : List Request :=
  if a.ctxErr = none then (doWithRedirects url headers a.rounds).requests else []

/-- The response of the attempt, whatever its status is. -/
def response? : Option HttpResponse :=
  if a.ctxErr = none then (doWithRedirects url headers a.rounds).result.toOption else none

/-- The error for which the attempt is followed by another one. -/
def lastErr? : Option GoError :=
  match a.ctxErr, (doWithRedirects url headers a.rounds).result with
  | some _, _ => none
  | none, .error e => if a.ctxErrAfter = none ∧ e.transient = true then some e.err else none
  | none, .ok resp =>
    if isRetriableStatus resp.statusCode = true then some (statusErr resp) else none

/-- What an attempt comes to that is not followed by another one. -/
def outcome : Except GoError HttpResponse :=
  match a.ctxErr, (doWithRedirects url headers a.rounds).result with
  | some err, _ => .error err
  | none, .error e => .error (a.ctxErrAfter.getD e.err)
  | none, .ok resp => if resp.statusCode = 200 then .ok resp else .error (statusErr resp)

/-- The responses that nobody reads. -/
def rejected : List HttpResponse :=
  (a.response? url headers).toList.filter fun resp => resp.statusCode ≠ 200

end Attempt

section Retry

variable {url : String} {headers : Headers} {attempts : ℕ → Attempt} {left i : ℕ}

theorem retriable_ne_200 {code : Int} (h : isRetriableStatus code = true) : code ≠ 200 := by
  rintro rfl
  exact absurd h (by decide)

/-- An attempt that another one follows. -/
theorem retryFrom_again {last prev : GoError} (h : (attempts i).lastErr? url headers = some last) :
    retryFrom url headers attempts (left + 1) i prev =
      .behind ((attempts i).requests url headers) ((attempts i).rejected url headers) (pause i)
        (retryFrom url headers attempts left (i + 1) last) := by
  unfold Attempt.lastErr? at h
  rw [retryFrom]
  unfold Attempt.requests Attempt.rejected Attempt.response?
  generalize doWithRedirects url headers (attempts i).rounds = fetched at h ⊢
  obtain ⟨sent, result⟩ := fetched
  cases hctx : (attempts i).ctxErr with
  | some err => simp [hctx] at h
  | none =>
    cases result with
    | error e =>
      simp only [hctx] at h
      split at h
      next hagain =>
        cases h
        simp [hagain.1, hagain.2, Except.toOption]
      next => cases h
    | ok resp =>
      simp only [hctx] at h
      split at h
      next hagain =>
        cases h
        simp [hagain, retriable_ne_200 hagain, Except.toOption]
      next => cases h

/-- An attempt that is the last one. -/
theorem retryFrom_final {prev : GoError} (h : (attempts i).lastErr? url headers = none) :
    retryFrom url headers attempts (left + 1) i prev =
      ⟨(attempts i).requests url headers, (attempts i).rejected url headers, [],
        (attempts i).outcome url headers⟩ := by
  unfold Attempt.lastErr? at h
  rw [retryFrom]
  unfold Attempt.requests Attempt.rejected Attempt.response? Attempt.outcome
  generalize doWithRedirects url headers (attempts i).rounds = fetched at h ⊢
  obtain ⟨sent, result⟩ := fetched
  cases hctx : (attempts i).ctxErr with
  | some err => simp
  | none =>
    cases result with
    | error e =>
      simp only [hctx] at h
      cases hafter : (attempts i).ctxErrAfter with
      | some err => simp [Except.toOption]
      | none =>
        have htransient : e.transient = false := by simpa [hafter] using h
        simp [htransient, Except.toOption]
    | ok resp =>
      have hagain : isRetriableStatus resp.statusCode = false := by simpa [hctx] using h
      by_cases hok : resp.statusCode = 200
      · simp [hok, Except.toOption, show isRetriableStatus 200 = false from rfl]
      · simp [hagain, hok, Except.toOption]

theorem flatMap_range_shift {α : Type} (f : ℕ → List α) (i n : ℕ) :
    (List.range (n + 1)).flatMap (fun j => f (i + j)) =
      f i ++ (List.range n).flatMap fun j => f (i + 1 + j) := by
  rw [List.range_succ_eq_map, List.flatMap_cons, List.flatMap_map]
  congr 1
  apply List.flatMap_congr
  intro j _
  rw [Nat.succ_eq_add_one, Nat.add_right_comm, Nat.add_assoc]

/-- The attempts from this one on: each but the last is followed by another one. -/
structure RunsFrom (url : String) (headers : Headers) (attempts : ℕ → Attempt) (left i n : ℕ)
    (r : Retried) : Prop where
  le : n ≤ left
  again : ∀ j < n, (attempts (i + j)).lastErr? url headers ≠ none
  requests : r.requests = (List.range (min (n + 1) left)).flatMap fun j =>
    (attempts (i + j)).requests url headers
  closed : r.closed = (List.range (min (n + 1) left)).flatMap fun j =>
    (attempts (i + j)).rejected url headers
  slept : r.slept = (List.range n).flatMap fun j => pause (i + j)
  final : n < left → (attempts (i + n)).lastErr? url headers = none ∧
    r.result = (attempts (i + n)).outcome url headers

theorem RunsFrom.next {n : ℕ} {r : Retried} {last : GoError}
    (h : RunsFrom url headers attempts left (i + 1) n r)
    (hagain : (attempts i).lastErr? url headers = some last) :
    RunsFrom url headers attempts (left + 1) i (n + 1)
      (r.behind ((attempts i).requests url headers) ((attempts i).rejected url headers)
        (pause i)) where
  le := Nat.succ_le_succ h.le
  again j hj := by
    cases j with
    | zero => simp [hagain]
    | succ j =>
      rw [show i + (j + 1) = i + 1 + j by omega]
      exact h.again j (by omega)
  requests := by
    rw [Nat.add_min_add_right, flatMap_range_shift fun j => (attempts j).requests url headers]
    exact congrArg _ h.requests
  closed := by
    rw [Nat.add_min_add_right, flatMap_range_shift fun j => (attempts j).rejected url headers]
    exact congrArg _ h.closed
  slept := by
    rw [flatMap_range_shift pause]
    exact congrArg _ h.slept
  final hlt := by
    rw [show i + (n + 1) = i + 1 + n by omega]
    exact h.final (by omega)

theorem retryFrom_runs (url : String) (headers : Headers) (attempts : ℕ → Attempt)
    (left i : ℕ) (prev : GoError) : ∃ n,
      RunsFrom url headers attempts left i n (retryFrom url headers attempts left i prev) ∧
      (n = left → (retryFrom url headers attempts left i prev).result =
        .error (.errorf ("download failed after " ++ toString maxAttempts ++ " attempts: ")
          (if left = 0 then prev
            else ((attempts (i + left - 1)).lastErr? url headers).getD prev))) := by
  induction left generalizing i prev with
  | zero =>
    refine ⟨0, ⟨Nat.le_refl 0, ?_, rfl, rfl, rfl, ?_⟩, fun _ => rfl⟩
    · intro j hj
      omega
    · intro hlt
      omega
  | succ left ih =>
    cases h : (attempts i).lastErr? url headers with
    | none =>
      refine ⟨0, ?_, by omega⟩
      rw [retryFrom_final h]
      refine ⟨Nat.zero_le _, ?_, ?_, ?_, rfl, fun _ => ⟨h, rfl⟩⟩
      · intro j hj
        omega
      · simp
      · simp
    | some last =>
      obtain ⟨n, hruns, hlast⟩ := ih (i + 1) last
      rw [retryFrom_again h]
      refine ⟨n + 1, hruns.next h, fun hn => ?_⟩
      have hn : n = left := by omega
      show (retryFrom url headers attempts left (i + 1) last).result = _
      rw [hlast hn, if_neg (Nat.succ_ne_zero left)]
      congr 2
      by_cases hzero : left = 0
      · subst hzero
        simp [h]
      · rw [if_neg hzero, show i + (left + 1) - 1 = i + 1 + left - 1 by omega]
        cases hl : (attempts (i + 1 + left - 1)).lastErr? url headers with
        | some err => rfl
        | none =>
          have hagain := hruns.again (left - 1) (by omega)
          rw [show i + 1 + (left - 1) = i + 1 + left - 1 by omega, hl] at hagain
          exact absurd rfl hagain

end Retry

/-- How a download goes whose attempts before this one are each followed by another. -/
structure Ends (url : String) (headers : Headers) (attempts : ℕ → Attempt) (n : ℕ) (r : Retried) :
    Prop where
  le : n ≤ maxAttempts
  again : ∀ i < n, (attempts i).lastErr? url headers ≠ none
  requests : r.requests = (List.range (min (n + 1) maxAttempts)).flatMap fun i =>
    (attempts i).requests url headers
  closed : r.closed = (List.range (min (n + 1) maxAttempts)).flatMap fun i =>
    (attempts i).rejected url headers
  slept : r.slept = backoffs.take (min n (maxAttempts - 1))
  decided : n < maxAttempts → (attempts n).lastErr? url headers = none ∧
    r.result = (attempts n).outcome url headers
  exhausted : n = maxAttempts → ∃ last,
    (attempts (maxAttempts - 1)).lastErr? url headers = some last ∧
    r.result = .error (.errorf "download failed after 3 attempts: " last)

section Ends

variable {url : String} {headers : Headers} {attempts : ℕ → Attempt} {n : ℕ} {r : Retried}

theorem pauses : ∀ n ≤ maxAttempts, (List.range n).flatMap (fun i => pause (0 + i)) =
    backoffs.take (min n (maxAttempts - 1)) := by
  decide

theorem download_ends (url : String) (headers : Headers) (attempts : ℕ → Attempt) :
    ∃ n, Ends url headers attempts n (downloadWithRetryContext url headers attempts) := by
  obtain ⟨n, h, hlast⟩ := retryFrom_runs url headers attempts maxAttempts 0 (.new "")
  have hagain : ∀ i < n, (attempts i).lastErr? url headers ≠ none := by
    intro i hi
    have hi' := h.again i hi
    rwa [Nat.zero_add] at hi'
  refine ⟨n, h.le, hagain, ?_, ?_, ?_, ?_, ?_⟩
  · have hrequests := h.requests
    simp only [Nat.zero_add] at hrequests
    exact hrequests
  · have hclosed := h.closed
    simp only [Nat.zero_add] at hclosed
    exact hclosed
  · exact h.slept.trans (pauses n h.le)
  · intro hlt
    have hfinal := h.final hlt
    rwa [Nat.zero_add] at hfinal
  · intro hn
    cases hl : (attempts (maxAttempts - 1)).lastErr? url headers with
    | none => exact absurd hl (hagain _ (by rw [hn]; decide))
    | some last =>
      refine ⟨last, rfl, (hlast hn).trans ?_⟩
      rw [if_neg (by decide), Nat.zero_add, hl]
      rfl

/-- A download succeeds exactly if some attempt does that is reached. -/
theorem Ends.ok_iff (h : Ends url headers attempts n r) (resp : HttpResponse) :
    r.result = .ok resp ↔ ∃ m < maxAttempts, (∀ i < m, (attempts i).lastErr? url headers ≠ none) ∧
      (attempts m).lastErr? url headers = none ∧
      (attempts m).outcome url headers = .ok resp := by
  constructor
  · intro hok
    rcases Nat.lt_or_eq_of_le h.le with hlt | heq
    · obtain ⟨hnone, hresult⟩ := h.decided hlt
      exact ⟨n, hlt, h.again, hnone, hresult.symm.trans hok⟩
    · obtain ⟨last, -, hresult⟩ := h.exhausted heq
      rw [hresult] at hok
      cases hok
  · rintro ⟨m, hm, hbefore, hnone, hok⟩
    have hsame : n = m := by
      rcases Nat.lt_trichotomy n m with hlt | heq | hgt
      · exact absurd (h.decided (by omega)).1 (hbefore n hlt)
      · exact heq
      · exact absurd hnone (h.again m hgt)
    subst hsame
    exact (h.decided hm).2.trans hok

theorem length_requests_le (a : Attempt) : (a.requests url headers).length ≤ maxRedirects + 1 := by
  unfold Attempt.requests
  split
  next => exact follow_length _ _ _ _
  next => exact Nat.zero_le _

theorem length_flatMap_range_le {α : Type} {f : ℕ → List α} {b : ℕ} (hf : ∀ i, (f i).length ≤ b)
    (k : ℕ) : ((List.range k).flatMap f).length ≤ k * b := by
  induction k with
  | zero => exact Nat.zero_le _
  | succ k ih =>
    have hlast := hf k
    rw [List.range_succ, List.flatMap_append, List.length_append, List.flatMap_singleton,
      Nat.succ_mul]
    omega

theorem Ends.length_le (h : Ends url headers attempts n r) :
    r.requests.length ≤ maxAttempts * (maxRedirects + 1) := by
  rw [h.requests]
  exact (length_flatMap_range_le (fun i => length_requests_le (attempts i)) _).trans
    (Nat.mul_le_mul_right _ (Nat.min_le_right _ _))

/-- A response is closed, or it is the result. -/
theorem Ends.owned (h : Ends url headers attempts n r) {i : ℕ}
    (hi : i < min (n + 1) maxAttempts) {resp : HttpResponse}
    (hresp : (attempts i).response? url headers = some resp) :
    resp ∈ r.closed ∨ r.result = .ok resp := by
  by_cases hok : resp.statusCode = 200
  · right
    have hctx : (attempts i).ctxErr = none := by
      by_contra hne
      rw [Attempt.response?, if_neg hne] at hresp
      cases hresp
    rw [Attempt.response?, if_pos hctx] at hresp
    have hresult : (doWithRedirects url headers (attempts i).rounds).result = .ok resp := by
      cases hr : (doWithRedirects url headers (attempts i).rounds).result with
      | error e =>
        rw [hr] at hresp
        cases hresp
      | ok other =>
        rw [hr] at hresp
        exact congrArg Except.ok (Option.some.inj hresp)
    have hnone : (attempts i).lastErr? url headers = none := by
      simp [Attempt.lastErr?, hctx, hresult, hok, show isRetriableStatus 200 = false from rfl]
    have hsame : n = i := by
      by_contra hne
      exact h.again i (by omega) hnone
    subst hsame
    rw [(h.decided (by omega)).2]
    simp [Attempt.outcome, hctx, hresult, hok]
  · left
    rw [h.closed, List.mem_flatMap]
    exact ⟨i, List.mem_range.mpr hi, by simp [Attempt.rejected, hresp, hok]⟩

/-- No retry shows the authorization where the first request does not. -/
theorem Ends.authorized (h : Ends url headers attempts n r) {req : Request}
    (hreq : req ∈ r.requests) (hcarries : Carries req.headers) :
    req.uri = url ∨ extractHost url = "" ∨ extractHost req.uri = extractHost url := by
  rw [h.requests, List.mem_flatMap] at hreq
  obtain ⟨i, -, hreq⟩ := hreq
  unfold Attempt.requests at hreq
  split at hreq
  next =>
    obtain ⟨j, target, hrequested, rfl⟩ := mem_requests.mp hreq
    rw [request_uri]
    rcases (carries_request.mp hcarries).2 with rfl | hkept
    · exact Or.inl (hrequested.2.1.unique Leads.start)
    · exact Or.inr hkept
  next => cases hreq

end Ends

/-- What holds of a download with its retries. The response of an attempt is the one that is no
redirect. -/
structure Retries (url : String) (headers : Headers) (attempts : ℕ → Attempt) (r : Retried) :
    Prop where
  ends : ∃ n, Ends url headers attempts n r ∧
    ∀ i < min (n + 1) maxAttempts, ∀ resp, (attempts i).response? url headers = some resp →
      resp ∈ r.closed ∨ r.result = .ok resp
  ok : ∀ resp, r.result = .ok resp ↔ ∃ m < maxAttempts,
    (∀ i < m, (attempts i).lastErr? url headers ≠ none) ∧
    (attempts m).lastErr? url headers = none ∧ (attempts m).outcome url headers = .ok resp
  bounded : r.requests.length ≤ maxAttempts * (maxRedirects + 1)
  authorized : ∀ req ∈ r.requests, Carries req.headers →
    req.uri = url ∨ extractHost url = "" ∨ extractHost req.uri = extractHost url

/-- Whatever the network and the context do: a download makes the attempts up to the first one
that decides, three at most, with the sleeps between them, closes the response of each attempt
unless it returns it, and shows the authorization to no other host than a single attempt does. -/
theorem download_retries (url : String) (headers : Headers) (attempts : ℕ → Attempt) :
    Retries url headers attempts (downloadWithRetryContext url headers attempts) := by
  obtain ⟨n, h⟩ := download_ends url headers attempts
  exact ⟨⟨n, h, fun i hi resp hresp => h.owned hi hresp⟩, h.ok_iff, h.length_le,
    fun req hreq hcarries => h.authorized hreq hcarries⟩

end AutoDeploy.Redirects
