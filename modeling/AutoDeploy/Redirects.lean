import AutoDeploy.DownloadAcceptance
import AutoDeploy.UriSyntax

namespace AutoDeploy.Redirects

open UriSyntax

def maxRedirects : ℕ := 10

/-- A request of the download client. -/
structure Request where
  uri : String
  headers : Headers
deriving DecidableEq

/-- What the client reads of a response before its body. The body is the one of the response
that is returned in the end. -/
structure Reply where
  statusCode : Int
  location : String
  contentLength : List UInt8
  body : Content
  readErr : Option GoError
  errWithLast : Bool

/-- What one round takes from outside: the error of the context, and what the client makes of the
request. -/
structure Round where
  ctxErr : Option ClientError
  reply : Except ClientError Reply

/-- The names of headers are compared without their case. -/
def sameName (a b : String) : Bool := a.toList.map Char.toLower == b.toList.map Char.toLower

/-- `Header.Set`. -/
def setHeader (headers : Headers) (header : String × String) : Headers :=
  headers.filter (fun other => !sameName other.1 header.1) ++ [header]

/-- `Header.Del`. -/
def delHeader (headers : Headers) (name : String) : Headers :=
  headers.filter fun other => !sameName other.1 name

def isRedirectStatus (code : Int) : Bool :=
  code == 301 || code == 302 || code == 303 || code == 307 || code == 308

/-- A text is a list of bytes, each as the character with its number. -/
def extractHost (rawURL : String) : String :=
  match GoStrings.cut rawURL "://" with
  | none => rawURL
  | some (_, rest) =>
    match GoStrings.cut rest "/" with
    | some (before, _) => before
    | none => rest

/-- The request of round `i` to this URL. -/
def request (headers : Headers) (originalHost : String) (i : ℕ) (currentURL : String) : Request :=
  let all := headers.foldl setHeader []
  if 0 < i ∧ originalHost ≠ "" ∧ extractHost currentURL ≠ originalHost then
    ⟨currentURL, delHeader all "Authorization"⟩
  else ⟨currentURL, all⟩

/-- What a download has done: the requests in their order, and the result. -/
structure Fetched where
  requests : List Request
  result : Except ClientError HttpResponse

/-- The rounds that are left of `doWithRedirects`, from round `i` on. -/
def follow (headers : Headers) (rounds : ℕ → Round) :
    (left i : ℕ) → (originalHost currentURL : String) → Fetched
  | 0, _, _, _ =>
    ⟨[], .error ⟨.new ("too many redirects (max " ++ toString maxRedirects ++ ")"), false⟩⟩
  | left + 1, i, originalHost, currentURL =>
    match (rounds i).ctxErr with
    | some err => ⟨[], .error err⟩
    | none =>
      let req := request headers originalHost i currentURL
      let originalHost := if i = 0 then extractHost currentURL else originalHost
      match (rounds i).reply with
      | .error err => ⟨[req], .error err⟩
      | .ok reply =>
        if isRedirectStatus reply.statusCode = false then
          ⟨[req], .ok ⟨reply.statusCode, (parseContentLength reply.contentLength).toInt, reply.body,
            reply.readErr, reply.errWithLast⟩⟩
        else if reply.location = "" then
          ⟨[req], .error ⟨.new ("redirect with empty Location header (status " ++
            toString reply.statusCode ++ ")"), false⟩⟩
        else
          let rest := follow headers rounds left (i + 1) originalHost reply.location
          ⟨req :: rest.requests, rest.result⟩

/-- One attempt of a download. -/
def doWithRedirects (url : String) (headers : Headers) (rounds : ℕ → Round) : Fetched :=
  follow headers rounds (maxRedirects + 1) 0 "" url

/-- Where a round redirects to. -/
def Round.target (round : Round) : Option String :=
  match round.ctxErr, round.reply with
  | none, .ok reply =>
    if isRedirectStatus reply.statusCode = true ∧ reply.location ≠ "" then some reply.location
    else none
  | _, _ => none

/-- The responses lead from the start to this URL in round `i`. -/
inductive Leads (start : String) (rounds : ℕ → Round) : ℕ → String → Prop
  | start : Leads start rounds 0 start
  | redirected {i : ℕ} {url target : String} (h : Leads start rounds i url)
      (htarget : (rounds i).target = some target) : Leads start rounds (i + 1) target

/-- The round sends a request to this URL. -/
def Requested (start : String) (rounds : ℕ → Round) (i : ℕ) (url : String) : Prop :=
  i ≤ maxRedirects ∧ Leads start rounds i url ∧ (rounds i).ctxErr = none

def host (url : String) : Option (List Char) := (Reference.parse url.toList).host

def Carries (headers : Headers) : Prop :=
  ∃ header ∈ headers, sameName header.1 "Authorization" = true

/-- The requests of one attempt show the authorization to the host of the first of them only. -/
structure Confined (start : String) (requests : List Request) : Prop where
  host : ∀ req ∈ requests, Carries req.headers → host req.uri = host start
  count : requests.length ≤ maxRedirects + 1

/-- A redirect that does not take the authorization elsewhere: the comparison of the hosts strips
it, the target starts with a scheme and an authority, or the target names the host of the
start. Where the host of the start is read as empty, the comparison is never made. -/
def SafeTarget (start target : String) : Prop :=
  (extractHost start ≠ "" ∧ (extractHost target ≠ extractHost start ∨ IsAbsolute target.toList)) ∨
    ((IsAbsolute target.toList ∨ IsSchemeRelative target.toList) ∧ host target = host start)

section Headers

variable {headers : Headers} {a b : String}

theorem sameName_iff : sameName a b = true ↔
    a.toList.map Char.toLower = b.toList.map Char.toLower := beq_iff_eq

theorem carries_nil : ¬ Carries [] := by
  rintro ⟨header, hm, -⟩
  exact absurd hm List.not_mem_nil

theorem carries_setHeader {header : String × String} : Carries (setHeader headers header) ↔
    Carries headers ∨ sameName header.1 "Authorization" = true := by
  constructor
  · rintro ⟨other, hm, hname⟩
    rcases List.mem_append.mp hm with hm | hm
    · exact Or.inl ⟨other, List.mem_of_mem_filter hm, hname⟩
    · rw [List.mem_singleton] at hm
      exact Or.inr (hm ▸ hname)
  · intro h
    by_cases hheader : sameName header.1 "Authorization" = true
    · exact ⟨header, List.mem_append_right _ List.mem_cons_self, hheader⟩
    · obtain ⟨other, hm, hname⟩ := h.resolve_right hheader
      refine ⟨other, List.mem_append_left _ (List.mem_filter.mpr ⟨hm, ?_⟩), hname⟩
      rw [Bool.not_eq_true']
      by_contra hsame
      rw [Bool.not_eq_false, sameName_iff] at hsame
      rw [sameName_iff] at hheader hname
      exact hheader (hsame.symm.trans hname)

/-- The caller's headers reach a request whatever their order is. -/
theorem carries_setAll (all : Headers) :
    Carries (headers.foldl setHeader all) ↔ Carries all ∨ Carries headers := by
  induction headers generalizing all with
  | nil => simp [carries_nil]
  | cons header rest ih =>
    rw [List.foldl_cons, ih, carries_setHeader]
    simp [Carries, or_assoc]

theorem carries_delHeader : ¬ Carries (delHeader headers "Authorization") := by
  rintro ⟨other, hm, hname⟩
  have hother := (List.mem_filter.mp hm).2
  simp [hname] at hother

theorem carries_request {originalHost url : String} {i : ℕ} :
    Carries (request headers originalHost i url).headers ↔ Carries headers ∧
      (i = 0 ∨ originalHost = "" ∨ extractHost url = originalHost) := by
  unfold request
  split
  next h =>
    obtain ⟨hi, hne, hhost⟩ := h
    simp [carries_delHeader, hne, hhost]
    omega
  next h =>
    rw [carries_setAll]
    have hkept : i = 0 ∨ originalHost = "" ∨ extractHost url = originalHost := by
      by_contra hnot
      simp only [not_or] at hnot
      exact h ⟨by omega, hnot.2.1, hnot.2.2⟩
    simp [carries_nil, hkept]

@[simp] theorem request_uri {originalHost url : String} {i : ℕ} :
    (request headers originalHost i url).uri = url := by
  unfold request
  split
  next => rfl
  next => rfl

end Headers

section Follow

variable {start url : String} {headers : Headers} {rounds : ℕ → Round} {i j : ℕ}

theorem Leads.unique {url' : String} (h : Leads start rounds i url)
    (h' : Leads start rounds i url') : url = url' := by
  induction h generalizing url' with
  | start =>
    cases h'
    rfl
  | redirected h htarget ih =>
    cases h' with
    | redirected h' htarget' => exact Option.some.inj (htarget.symm.trans htarget')

/-- A round behind another one is led to by the target of that one. -/
theorem Leads.earlier (h : Leads start rounds j url) (hi : i < j) :
    ∃ url' target, Leads start rounds i url' ∧ (rounds i).target = some target := by
  induction h with
  | start => omega
  | @redirected j url' target h htarget ih =>
    by_cases he : i = j
    · subst he
      exact ⟨url', target, h, htarget⟩
    · exact ih (by omega)

theorem request_first (originalHost originalHost' url : String) :
    request headers originalHost 0 url = request headers originalHost' 0 url := by
  simp [request]

theorem target_some {reply : Reply} (hctx : (rounds i).ctxErr = none)
    (hreply : (rounds i).reply = .ok reply) (hstatus : isRedirectStatus reply.statusCode = true)
    (hne : reply.location ≠ "") : (rounds i).target = some reply.location := by
  simp [Round.target, hctx, hreply, hstatus, hne]

/-- A round from `i` on, and before `stop`, sends this request. -/
def Sends (start : String) (headers : Headers) (rounds : ℕ → Round) (i stop : ℕ)
    (req : Request) : Prop :=
  ∃ j url, i ≤ j ∧ j < stop ∧ Leads start rounds j url ∧ (rounds j).ctxErr = none ∧
    req = request headers (extractHost start) j url

theorem sends_here {stop : ℕ} {req : Request} (hleads : Leads start rounds i url)
    (hstop : i < stop) : Sends start headers rounds i stop req ↔
      ((rounds i).ctxErr = none ∧ req = request headers (extractHost start) i url) ∨
        Sends start headers rounds (i + 1) stop req := by
  constructor
  · rintro ⟨j, url', hij, hj, hleads', hctx, rfl⟩
    by_cases he : i = j
    · subst he
      rw [← hleads.unique hleads']
      exact Or.inl ⟨hctx, rfl⟩
    · exact Or.inr ⟨j, url', by omega, hj, hleads', hctx, rfl⟩
  · rintro (⟨hctx, rfl⟩ | ⟨j, url', hij, hj, hrest⟩)
    · exact ⟨i, url, Nat.le_refl i, hstop, hleads, hctx, rfl⟩
    · exact ⟨j, url', by omega, hj, hrest⟩

theorem sends_behind {stop : ℕ} {req : Request} (htarget : (rounds i).target = none) :
    ¬ Sends start headers rounds (i + 1) stop req := by
  rintro ⟨j, url', hij, -, hleads, -⟩
  obtain ⟨-, target, -, hsome⟩ := hleads.earlier (show i < j by omega)
  rw [htarget] at hsome
  cases hsome

/-- What is left of an attempt requests the URLs that the responses lead to, one in each round. -/
theorem mem_follow {left : ℕ} {originalHost : String} {req : Request}
    (hleads : Leads start rounds i url) (horiginal : i = 0 ∨ originalHost = extractHost start) :
    req ∈ (follow headers rounds left i originalHost url).requests ↔
      Sends start headers rounds i (i + left) req := by
  induction left generalizing i originalHost url with
  | zero =>
    constructor
    · intro hm
      cases hm
    · rintro ⟨j, -, hij, hj, -⟩
      omega
  | succ left ih =>
    have hrequest : request headers originalHost i url =
        request headers (extractHost start) i url := by
      rcases horiginal with rfl | rfl
      · exact request_first _ _ _
      · rfl
    have hhost : (if i = 0 then extractHost url else originalHost) = extractHost start := by
      split
      next hi =>
        subst hi
        rw [hleads.unique Leads.start]
      next hi => exact horiginal.resolve_left hi
    have hlast : (rounds i).ctxErr = none → (rounds i).target = none →
        (req ∈ [request headers originalHost i url] ↔
          Sends start headers rounds i (i + (left + 1)) req) := by
      intro hctx htarget
      rw [sends_here hleads (by omega), hrequest, List.mem_singleton]
      simp [hctx, sends_behind htarget]
    unfold follow
    split
    next err hctx =>
      rw [sends_here hleads (by omega)]
      have htarget : (rounds i).target = none := by simp [Round.target, hctx]
      simp [hctx, sends_behind htarget]
    next hctx =>
      dsimp only
      split
      next err hreply => exact hlast hctx (by simp [Round.target, hctx, hreply])
      next reply hreply =>
        split
        next hstatus => exact hlast hctx (by simp [Round.target, hctx, hreply, hstatus])
        next hstatus =>
          split
          next hempty => exact hlast hctx (by simp [Round.target, hctx, hreply, hempty])
          next hne =>
            rw [Bool.not_eq_false] at hstatus
            have htarget := target_some hctx hreply hstatus hne
            have hsame : i + 1 + left = i + (left + 1) := by omega
            rw [hhost, List.mem_cons, ih (hleads.redirected htarget) (Or.inr rfl), hsame,
              sends_here hleads (show i < i + (left + 1) by omega), hrequest]
            simp [hctx]

theorem follow_length (left i : ℕ) (originalHost url : String) :
    (follow headers rounds left i originalHost url).requests.length ≤ left := by
  induction left generalizing i originalHost url with
  | zero => exact Nat.le_refl 0
  | succ left ih =>
    unfold follow
    split
    next => exact Nat.zero_le _
    next =>
      dsimp only
      split
      next => exact Nat.succ_le_succ (Nat.zero_le left)
      next reply =>
        split
        next => exact Nat.succ_le_succ (Nat.zero_le left)
        next =>
          split
          next => exact Nat.succ_le_succ (Nat.zero_le left)
          next => exact Nat.succ_le_succ (ih _ _ _)

end Follow

section Host

variable {start target : String}

theorem extractHost_absolute {url : String} {scheme rest : List Char}
    (hurl : url.toList = scheme ++ ':' :: '/' :: '/' :: rest)
    (hscheme : scheme.all isSchemeCharacter = true) :
    (extractHost url).toList = rest.takeWhile (· ≠ '/') := by
  have hcolon : ':' ∉ scheme := by
    intro hm
    exact (isSchemeCharacter_iff.mp (List.all_eq_true.mp hscheme ':' hm)).1 rfl
  have hsep : "://".toList = ':' :: ['/', '/'] := by decide
  have hslash : "/".toList = ['/'] := by decide
  have hcut : GoStrings.cut url "://" = some (String.ofList scheme, String.ofList rest) := by
    have happend : url.toList = scheme ++ ':' :: ['/', '/'] ++ rest := by simp [hurl]
    unfold GoStrings.cut
    rw [hsep, happend, GoStrings.cutChars_append hcolon]
    rfl
  unfold extractHost
  rw [hcut]
  simp only [GoStrings.cut, hslash, String.toList_ofList, GoStrings.cutChars_single]
  by_cases hm : '/' ∈ rest
  · simp [hm]
  · have hall : ∀ r ∈ rest, decide (r ≠ '/') = true :=
      fun r hr => decide_eq_true fun he => hm (he ▸ hr)
    rw [List.takeWhile_eq_self_iff.mpr hall]
    simp [hm]

/-- What the scan reads decides the host of a URL that starts with a scheme and an authority. -/
theorem host_absolute {url : String} (h : IsAbsolute url.toList) :
    host url = some (hostOf ((hierarchy (extractHost url).toList).takeWhile (· ≠ '/'))) := by
  obtain ⟨scheme, rest, hurl, hne, hscheme⟩ := h
  rw [extractHost_absolute hurl hscheme, hierarchy_takeWhile]
  unfold host Reference.host
  rw [hurl, authority_absolute hne hscheme]
  rfl

theorem host_some {url : String} {name : List Char} (h : host url = some name) :
    IsAbsolute url.toList ∨ IsSchemeRelative url.toList := by
  obtain ⟨authority, hauthority, -⟩ := Option.map_eq_some_iff.mp h
  exact authority_some hauthority

/-- A target is safe exactly if it names the host of the start or gets no authorization. -/
theorem safeTarget_iff (hstart : IsAbsolute start.toList) : SafeTarget start target ↔
    (extractHost start = "" ∨ extractHost target = extractHost start →
      host target = host start) := by
  constructor
  · rintro (⟨hne, hstripped | habsolute⟩ | ⟨-, hsame⟩) hkept
    · exact absurd (hkept.resolve_left hne) hstripped
    · rw [host_absolute habsolute, host_absolute hstart, hkept.resolve_left hne]
    · exact hsame
  · intro h
    by_cases hkept : extractHost start = "" ∨ extractHost target = extractHost start
    · have hsame := h hkept
      exact Or.inr ⟨host_some (hsame.trans (host_absolute hstart)), hsame⟩
    · obtain ⟨hne, hstripped⟩ := not_or.mp hkept
      exact Or.inl ⟨hne, Or.inl hstripped⟩

end Host

/-- An attempt sends one request to each URL that the responses lead to. -/
theorem mem_requests {start : String} {headers : Headers} {rounds : ℕ → Round} {req : Request} :
    req ∈ (doWithRedirects start headers rounds).requests ↔ ∃ i url,
      Requested start rounds i url ∧ req = request headers (extractHost start) i url := by
  unfold doWithRedirects
  rw [mem_follow Leads.start (Or.inl rfl)]
  constructor
  · rintro ⟨i, url, -, hi, hleads, hctx, rfl⟩
    exact ⟨i, url, ⟨by omega, hleads, hctx⟩, rfl⟩
  · rintro ⟨i, url, ⟨hi, hleads, hctx⟩, rfl⟩
    exact ⟨i, url, Nat.zero_le i, by omega, hleads, hctx, rfl⟩

/-- An attempt shows its authorization to the first host only, and sends eleven requests at most,
exactly if there is none or if every redirect that it takes is safe. -/
theorem authorization_confined_iff (start : String) (headers : Headers) (rounds : ℕ → Round)
    (hstart : IsAbsolute start.toList) :
    Confined start (doWithRedirects start headers rounds).requests ↔
      (Carries headers → ∀ i target, Requested start rounds (i + 1) target →
        SafeTarget start target) := by
  constructor
  · rintro ⟨hhost, -⟩ hauthorized i target hrequested
    have hreq : request headers (extractHost start) (i + 1) target ∈
        (doWithRedirects start headers rounds).requests :=
      mem_requests.mpr ⟨i + 1, target, hrequested, rfl⟩
    rw [safeTarget_iff hstart]
    intro hkept
    have hsame := hhost _ hreq (carries_request.mpr ⟨hauthorized, Or.inr hkept⟩)
    rwa [request_uri] at hsame
  · intro hsafe
    refine ⟨?_, follow_length _ _ _ _⟩
    intro req hreq hcarries
    obtain ⟨i, url, hrequested, rfl⟩ := mem_requests.mp hreq
    obtain ⟨hauthorized, hkept⟩ := carries_request.mp hcarries
    rw [request_uri]
    cases i with
    | zero => rw [hrequested.2.1.unique Leads.start]
    | succ i =>
      have hsafe' := (safeTarget_iff hstart).mp (hsafe hauthorized i url hrequested)
      exact hsafe' (hkept.resolve_left (Nat.succ_ne_zero i))

/-- The first answer redirects, and every other one is the artifact. -/
def redirected (location : String) : ℕ → Round
  | 0 => ⟨none, .ok ⟨302, location, [], [], none, false⟩⟩
  | _ => ⟨none, .ok ⟨200, "", [], [1], none, false⟩⟩

/-- A redirect within the host keeps the token. -/
theorem authorization_confined_iff_sameHost :
    Confined "https://api.github.com/a" (doWithRedirects "https://api.github.com/a"
      [("Authorization", "Bearer t")] (redirected "https://api.github.com/b")).requests := by
  have hstart : IsAbsolute "https://api.github.com/a".toList :=
    ⟨"https".toList, "api.github.com/a".toList, by decide, by decide, by decide⟩
  have htarget : IsAbsolute "https://api.github.com/b".toList :=
    ⟨"https".toList, "api.github.com/b".toList, by decide, by decide, by decide⟩
  refine (authorization_confined_iff _ _ _ hstart).mpr ?_
  rintro - i target ⟨-, hleads, -⟩
  cases hleads with
  | redirected hleads' hsome =>
    cases i with
    | zero =>
      cases hsome
      exact Or.inl ⟨by decide, Or.inr htarget⟩
    | succ i =>
      simp [redirected, Round.target, isRedirectStatus] at hsome

/-- The query of the location holds what the scan takes for its host, and the token goes to
another one. -/
theorem schemeRelative_leaks : IsAbsolute "https://api.github.com/a".toList ∧
    ¬ Confined "https://api.github.com/a"
      (doWithRedirects "https://api.github.com/a" [("Authorization", "Bearer t")]
        (redirected "//evil.com/?u=://api.github.com/")).requests := by
  refine ⟨⟨"https".toList, "api.github.com/a".toList, by decide, by decide, by decide⟩, ?_⟩
  intro h
  have hsame := h.host ⟨"//evil.com/?u=://api.github.com/", [("Authorization", "Bearer t")]⟩
    (by decide) ⟨("Authorization", "Bearer t"), by decide, by decide⟩
  exact absurd hsame (by decide)

end AutoDeploy.Redirects
