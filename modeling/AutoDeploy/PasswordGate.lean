import AutoDeploy.AdminAction

namespace AutoDeploy

open Interleaving

/-- The last account with the name was given another one, and no account has taken it since. -/
def RenamedAway (history : AdminHistory) (username : String) : Prop :=
  ∃ front t creds body step back,
    history = front ++ .acted t (.changeUsername creds body) step :: back ∧
    step.before.Named username ∧ ¬ step.after.Named username ∧
    ∀ later ∈ steps back, ¬ later.before.Named username → ¬ later.after.Named username

/-- A cookie with a good signature is one that the server has issued before. -/
def cookieIssued (rt : AdminRuntime) (pre : AdminHistory) :
    Record AdminUsers AdminEvent AdminReply AdminCall → Bool
  | .called _ call =>
    match rt.openJWT call.cookie with
    | none => true
    | some claims => decide (.issued call.cookie claims.sub ∈ emissions (steps pre))
  | _ => true

def CookiesIssued (rt : AdminRuntime) (history : AdminHistory) : Prop :=
  ∀ pre record post, history = pre ++ record :: post → cookieIssued rt pre record = true

/-- A request that passes the gate is of an account that need not change its password. -/
def GateKept (history : AdminHistory) : Prop :=
  ∀ pre t call step post path username failed, history = pre ++ .acted t call step :: post →
    .gated path username failed true ∈ step.emitted →
    ∃ user ∈ step.before.rows, user.username = username ∧ user.mustChangePassword = false

/-- No request comes to the gate under a name that was given away, and the lookup fails for no
account that has to change its password. -/
def GateInformed (history : AdminHistory) : Prop :=
  ∀ pre t call step post path username failed passed,
    history = pre ++ .acted t call step :: post →
    .gated path username failed passed ∈ step.emitted →
    ¬ RenamedAway pre username ∧ (failed = true → ∀ user ∈ step.before.rows,
      user.username = username → user.mustChangePassword = false)

theorem passesGate_iff {users : AdminUsers} {fault : Option String} {username : String} :
    (users.passesGate fault username = true →
      ∃ user ∈ users.rows, user.username = username ∧ user.mustChangePassword = false) ↔
    users.Named username ∧ (fault.isSome = true → ∀ user ∈ users.rows,
      user.username = username → user.mustChangePassword = false) := by
  cases hfind : users.find? username with
  | none =>
    have hnone := AdminUsers.find?_none.mp hfind
    have hpasses : users.passesGate fault username = true := by
      cases fault <;> simp [AdminUsers.passesGate, AdminUsers.lookup, hfind]
    constructor
    · intro h
      obtain ⟨user, hm, hname, -⟩ := h hpasses
      exact absurd ⟨user, hm, hname⟩ hnone
    · intro h
      exact absurd h.1 hnone
  | some user =>
    obtain ⟨hm, hname⟩ := AdminUsers.find?_some.mp hfind
    have honly : ∀ other ∈ users.rows, other.username = username → other = user := by
      intro other hother hsame
      exact List.inj_on_of_nodup_map users.uniqueUsername hother hm (hsame.trans hname.symm)
    constructor
    · intro h
      refine ⟨⟨user, hm, hname⟩, ?_⟩
      intro hfault other hother hsame
      have hpasses : users.passesGate fault username = true := by
        cases fault with
        | none => cases hfault
        | some text => simp [AdminUsers.passesGate, AdminUsers.lookup]
      obtain ⟨free, hfree, hfreeName, hmust⟩ := h hpasses
      rw [honly other hother hsame, ← honly free hfree hfreeName]
      exact hmust
    · intro h hpasses
      refine ⟨user, hm, hname, ?_⟩
      cases fault with
      | none => simpa [AdminUsers.passesGate, AdminUsers.lookup, hfind] using hpasses
      | some text => exact h.2 rfl user hm hname

section Runs

variable {rt : AdminRuntime} {s₀ : AdminUsers} {cfg : AdminConfig} {username : String}

theorem admin_explained (reach : Interleaving.Reaches rt.serve s₀ cfg) :
    Explained (AdminAction rt) AdminReturns cfg.history :=
  reaches_explained (program_admin rt) (fun _ _ _ _ _ => trivial) trivial reach

theorem seen_visited (reach : Interleaving.Reaches rt.serve s₀ cfg) {t : ℕ}
    (h : Seen (ownSteps t cfg.history) username) :
    ∃ s ∈ visited s₀ cfg.history, s.Named username := by
  obtain ⟨step, hm, hnamed⟩ := h
  obtain ⟨call, hacted⟩ := mem_ownSteps.mp hm
  have hstep : step ∈ steps cfg.history := mem_steps.mpr ⟨t, call, hacted⟩
  rcases hnamed with hbefore | hafter
  · exact ⟨step.before, before_mem_visited reach hstep, hbefore⟩
  · exact ⟨step.after, List.mem_cons_of_mem _ (List.mem_map.mpr ⟨step, hstep, rfl⟩), hafter⟩

/-- A token is issued for the name of an account. -/
theorem issued_visited (reach : Interleaving.Reaches rt.serve s₀ cfg) {token : String}
    (h : .issued token username ∈ emissions (steps cfg.history)) :
    ∃ s ∈ visited s₀ cfg.history, s.Named username := by
  obtain ⟨step, hm, hemitted⟩ := List.mem_flatMap.mp h
  obtain ⟨t, call, hacted⟩ := mem_steps.mp hm
  obtain ⟨pre, post, hsplit⟩ := List.append_of_mem hacted
  have hseen : Seen (ownSteps t pre) username := by
    cases admin_explained reach pre _ post hsplit with
    | reads _ he | rehashed he _ | renamed _ he _ => rw [he] at hemitted; cases hemitted
    | gated _ he _ =>
      rw [he, List.mem_singleton] at hemitted
      cases hemitted
    | issued _ he _ hseen =>
      rw [he, List.mem_singleton] at hemitted
      cases hemitted
      exact hseen
  obtain ⟨there, hreach, rfl⟩ := reaches_prefix reach hsplit
  obtain ⟨s, hs, hnamed⟩ := seen_visited hreach hseen
  rw [hsplit]
  exact ⟨s, visited_prefix hs, hnamed⟩

theorem authenticated_visited (reach : Interleaving.Reaches rt.serve s₀ cfg)
    (hissued : CookiesIssued rt cfg.history) {pre post : AdminHistory} {t : ℕ} {call : AdminCall}
    {step : AdminStep} (hsplit : cfg.history = pre ++ .acted t call step :: post)
    (h : Authenticated rt call (ownSteps t pre) username) :
    ∃ s ∈ visited s₀ pre, s.Named username := by
  rcases h with hseen | ⟨now, hvalid⟩
  · obtain ⟨there, hreach, rfl⟩ := reaches_prefix reach hsplit
    exact seen_visited hreach hseen
  · obtain ⟨front, late, rfl⟩ := acted_called reach hsplit
    have hcookie := hissued front (.called t call) (late ++ .acted t call step :: post)
      (by rw [hsplit]; simp)
    have hfront : cfg.history =
        front ++ (.called t call :: late ++ .acted t call step :: post) := by
      rw [hsplit]
      simp
    unfold AdminRuntime.validateJWT at hvalid
    cases hopen : rt.openJWT call.cookie with
    | none => simp [hopen] at hvalid
    | some claims =>
      have hname : claims.sub = username := by
        simp only [hopen] at hvalid
        split at hvalid
        next => cases hvalid
        next => exact Option.some.inj hvalid
      simp only [cookieIssued, hopen, decide_eq_true_eq, hname] at hcookie
      obtain ⟨there, hreach, rfl⟩ := reaches_prefix reach hfront
      obtain ⟨s, hs, hnamed⟩ := issued_visited hreach hcookie
      exact ⟨s, visited_prefix hs, hnamed⟩

/-- Only a change of the username takes a name from an account. -/
theorem renames_lost {call : AdminCall} {own : List AdminStep} {step : AdminStep}
    (h : AdminAction rt call own step) (hbefore : step.before.Named username)
    (hafter : ¬ step.after.Named username) : ∃ creds body, call = .changeUsername creds body := by
  cases h with
  | reads hs _ | issued hs _ _ _ | gated hs _ _ => rw [hs] at hafter; exact absurd hbefore hafter
  | rehashed _ hupdate =>
    have hnamed := (AdminUsers.named_update hupdate (fun _ => rfl) username).mpr hbefore
    exact absurd hnamed hafter
  | @renamed creds body _ _ _ hcall _ _ => exact ⟨creds, body, hcall⟩

theorem RenamedAway.concat {history : AdminHistory}
    {record : Record AdminUsers AdminEvent AdminReply AdminCall} (h : RenamedAway history username)
    (hkept : ∀ step, record.step? = some step →
      ¬ step.before.Named username → ¬ step.after.Named username) :
    RenamedAway (history ++ [record]) username := by
  obtain ⟨front, t, creds, body, step, back, rfl, hbefore, hgone, hback⟩ := h
  refine ⟨front, t, creds, body, step, back ++ [record], by simp, hbefore, hgone, ?_⟩
  intro later hm
  rw [steps_append, List.mem_append] at hm
  rcases hm with hold | hnew
  · exact hback later hold
  · obtain ⟨other, hother, hstep⟩ := List.mem_filterMap.mp hnew
    rw [List.mem_singleton.mp hother] at hstep
    exact hkept later hstep

/-- A name that an account has had is still one, or it was given away. -/
theorem named_or_renamed (reach : Interleaving.Reaches rt.serve s₀ cfg) :
    (∃ s ∈ visited s₀ cfg.history, s.Named username) →
      cfg.shared.Named username ∨ RenamedAway cfg.history username := by
  refine reaches_invariant (program_admin rt) (fun _ _ _ _ _ => trivial) trivial
    (J := fun s history => (∃ s ∈ visited s₀ history, s.Named username) →
      s.Named username ∨ RenamedAway history username) ?_ ?_ ?_ ?_ reach
  · intro h
    obtain ⟨s, hm, hnamed⟩ := h
    rw [List.mem_singleton.mp hm] at hnamed
    exact Or.inl hnamed
  · intro s history t call ih h
    rw [visited_called] at h
    rcases ih h with hnamed | hgone
    · exact Or.inl hnamed
    · exact Or.inr (hgone.concat fun _ he => by cases he)
  · intro history t call step _ ih haction h
    by_cases hafter : step.after.Named username
    · exact Or.inl hafter
    refine Or.inr ?_
    by_cases hbefore : step.before.Named username
    · obtain ⟨creds, body, rfl⟩ := renames_lost haction hbefore hafter
      exact ⟨history, t, creds, body, step, [], rfl, hbefore, hafter, by simp [steps]⟩
    · obtain ⟨s, hm, hnamed⟩ := h
      rw [visited_acted, List.mem_append, List.mem_singleton] at hm
      rcases hm with hold | rfl
      · rcases ih ⟨s, hold, hnamed⟩ with hnow | hgone
        · exact absurd hnow hbefore
        · refine hgone.concat ?_
          intro later he _
          cases he
          exact hafter
      · exact absurd hnamed hafter
  · intro s history t call reply _ ih _ h
    rw [visited_returned] at h
    rcases ih h with hnamed | hgone
    · exact Or.inl hnamed
    · exact Or.inr (hgone.concat fun _ he => by cases he)

/-- While a name is given away no account has it. -/
theorem renamed_gone (reach : Interleaving.Reaches rt.serve s₀ cfg)
    (h : RenamedAway cfg.history username) : ¬ cfg.shared.Named username := by
  obtain ⟨front, t, creds, body, step, back, hsplit, -, hgone, hkept⟩ := h
  have hhere : cfg.history = (front ++ [.acted t (.changeUsername creds body) step]) ++ back := by
    rw [hsplit]
    simp
  have hnow : ¬ (now s₀ (front ++ [.acted t (.changeUsername creds body) step])).Named
      username := by rwa [now_acted]
  rw [reaches_now reach, hhere]
  exact now_kept (P := fun s => ¬ s.Named username) reach hhere hnow hkept

/-- What comes to the gate: a name that some account has, unless it was given away. -/
theorem gate_event (reach : Interleaving.Reaches rt.serve s₀ cfg)
    (hissued : CookiesIssued rt cfg.history) {pre post : AdminHistory} {t : ℕ} {call : AdminCall}
    {step : AdminStep} {path : String} {failed passed : Bool}
    (hsplit : cfg.history = pre ++ .acted t call step :: post)
    (hm : .gated path username failed passed ∈ step.emitted) :
    ∃ fault : Option String, failed = fault.isSome ∧
      passed = step.before.passesGate fault username ∧
      (step.before.Named username ↔ ¬ RenamedAway pre username) := by
  cases admin_explained reach pre _ post hsplit with
  | reads _ he | rehashed he _ | renamed _ he _ => rw [he] at hm; cases hm
  | issued _ he _ _ =>
    rw [he, List.mem_singleton] at hm
    cases hm
  | @gated _ _ fault _ he hauthenticated =>
    rw [he, List.mem_singleton] at hm
    cases hm
    have hvisited := authenticated_visited reach hissued hsplit hauthenticated
    obtain ⟨there, hreach, rfl, hshared⟩ := reaches_before reach hsplit
    refine ⟨fault, rfl, rfl, ?_⟩
    rw [← hshared]
    constructor
    · exact fun hnamed hgone => renamed_gone hreach hgone hnamed
    · intro hkept
      rcases named_or_renamed hreach hvisited with hnamed | hgone
      · exact hnamed
      · exact absurd hgone hkept

end Runs

/-- The gate holds in a run exactly where it is informed. -/
theorem gate_iff {rt : AdminRuntime} {s₀ : AdminUsers} {cfg : AdminConfig}
    (reach : Interleaving.Reaches rt.serve s₀ cfg) (hissued : CookiesIssued rt cfg.history) :
    GateKept cfg.history ↔ GateInformed cfg.history := by
  constructor
  · intro hgate pre t call step post path username failed passed hsplit hm
    obtain ⟨fault, rfl, rfl, hnamed⟩ := gate_event reach hissued hsplit hm
    rw [← hnamed]
    refine passesGate_iff.mp ?_
    intro hpasses
    rw [hpasses] at hm
    exact hgate pre t call step post path username _ hsplit hm
  · intro hinformed pre t call step post path username failed hsplit hm
    obtain ⟨hkept, hfault⟩ := hinformed pre t call step post path username failed true hsplit hm
    obtain ⟨fault, rfl, hpasses, hnamed⟩ := gate_event reach hissued hsplit hm
    exact passesGate_iff.mpr ⟨hnamed.mpr hkept, hfault⟩ hpasses.symm

/-- The gate at one step, as a check. -/
def gateHolds (step : AdminStep) : Bool :=
  step.emitted.all fun event =>
    match event with
    | .gated _ username _ true =>
      step.before.rows.any fun user => user.username == username && !user.mustChangePassword
    | _ => true

theorem GateKept.holds {history : AdminHistory} (h : GateKept history) :
    (steps history).all gateHolds = true := by
  rw [List.all_eq_true]
  intro step hstep
  obtain ⟨t, call, hacted⟩ := mem_steps.mp hstep
  obtain ⟨pre, post, hsplit⟩ := List.append_of_mem hacted
  refine List.all_eq_true.mpr ?_
  intro event hevent
  split
  next path username failed =>
    obtain ⟨user, hm, hname, hmust⟩ :=
      h pre t call step post path username failed hsplit hevent
    exact List.any_eq_true.mpr ⟨user, hm, by simp [hname, hmust]⟩
  next => rfl

def cookiesCheck (rt : AdminRuntime) (history : AdminHistory) : Bool :=
  (List.range history.length).all fun i =>
    match history[i]? with
    | none => true
    | some record => cookieIssued rt (history.take i) record

theorem cookiesIssued_of_check {rt : AdminRuntime} {history : AdminHistory}
    (h : cookiesCheck rt history = true) : CookiesIssued rt history := by
  intro pre record post hsplit
  have hlength : pre.length < history.length := by rw [hsplit]; simp
  have hcheck := List.all_eq_true.mp h pre.length (List.mem_range.mpr hlength)
  subst hsplit
  simpa using hcheck

/-- The bcrypt hashes of two passwords, with one salt. -/
def sampleHashOf (password : String) : String :=
  if password = "11" then "$2a$10$abcdefghijklmnopqrstuud0jqdIRSpcNc0/DtuPj9XLjmAy8v3wa"
  else if password = "s3cret-1" then "$2a$10$abcdefghijklmnopqrstuuR9NVA628zs9Y3VgNMR06CkfsnO2j1yW"
  else "$2a$10$" ++ password

def samplePayload (claims : JWTClaims) : List UInt8 :=
  GoStrings.bytes ("\x7b\"sub\":\"" ++ claims.sub ++ "\",\"exp\":" ++ toString claims.exp ++ "\x7d")

def sampleClaims : List JWTClaims := [⟨"admin", 1700086400⟩, ⟨"root", 1700086400⟩]

def sampleHeader : String := "eyJhbGciOiJIUzI1NiIsInR5cCI6IkpXVCJ9"

def adminBody : String := "eyJzdWIiOiJhZG1pbiIsImV4cCI6MTcwMDA4NjQwMH0"

def rootBody : String := "eyJzdWIiOiJyb290IiwiZXhwIjoxNzAwMDg2NDAwfQ"

def adminMac : List UInt8 :=
  [73, 48, 112, 152, 205, 186, 250, 119, 67, 238, 77, 140, 130, 141, 146, 157, 177, 185, 114, 11,
    252, 190, 71, 20, 245, 237, 237, 50, 168, 78, 66, 116]

def rootMac : List UInt8 :=
  [86, 32, 59, 254, 63, 82, 232, 48, 197, 33, 142, 31, 143, 10, 192, 173, 124, 45, 23, 11, 139,
    170, 57, 254, 135, 143, 27, 16, 63, 79, 130, 28]

/-- What base64 makes of the parts of two tokens. -/
def sampleBase64 : List (List UInt8 × String) :=
  [(GoStrings.bytes "\x7b\"alg\":\"HS256\",\"typ\":\"JWT\"\x7d", sampleHeader),
    (samplePayload ⟨"admin", 1700086400⟩, adminBody),
    (samplePayload ⟨"root", 1700086400⟩, rootBody),
    (adminMac, "STBwmM26-ndD7k2Mgo2SnbG5cgv8vkcU9e3tMqhOQnQ"),
    (rootMac, "ViA7_j9S6DDFIY4fjwrArXwtFwuLqjn-h48bED9Pghw")]

/-- A process whose secret is 32 zero bytes, on the inputs of the runs below. -/
def sampleRuntime : AdminRuntime where
  bcrypt := ⟨fun _ password => .ok (sampleHashOf password),
    fun hash password => hash == sampleHashOf password⟩
  marshal claims := some (samplePayload claims)
  unmarshal payload := sampleClaims.find? fun claims => samplePayload claims == payload
  encodeToString bytes := (sampleBase64.lookup bytes).getD ""
  decodeString text := (sampleBase64.find? fun entry => entry.2 == text).map Prod.fst
  hmac _ unsigned := if unsigned = sampleHeader ++ "." ++ adminBody then adminMac else rootMac
  secret := List.replicate 32 0

def sampleChoice : AdminChoice := ⟨none, "abcdefghijklmnopqrstuu", 1700000000⟩

/-- The table after the seeding of an empty one. -/
def seededUsers : AdminUsers :=
  ((ensureSeed sampleRuntime.bcrypt "admin" "11").alone (fun _ => sampleChoice) .empty).state

/-- The session of a login as the seeded admin. -/
def adminSession : AdminCredentials :=
  ⟨"", none, sampleHeader ++ "." ++ adminBody ++ "." ++
    "STBwmM26-ndD7k2Mgo2SnbG5cgv8vkcU9e3tMqhOQnQ"⟩

def adminReplies (history : AdminHistory) : List AdminReply :=
  history.filterMap fun record =>
    match record with
    | .returned _ _ reply => some reply
    | _ => none

def adminToken : String := adminSession.cookie

/-- The seeded admin is at the gate before and after a change of the password. -/
def changedPassword : AdminConfig :=
  play sampleRuntime.serve seededUsers
    (solo (.login "admin" "11") 0 3 sampleChoice ++
      solo (.page adminSession "/admin/api/apps") 1 3 sampleChoice ++
      solo (.changePassword adminSession (some ("11", "s3cret-1"))) 2 6 sampleChoice ++
      solo (.page adminSession "/admin/api/apps") 3 3 sampleChoice)

theorem gate_iff_changedPassword :
    adminReplies changedPassword.history =
      [.redirect "/admin/" (some adminToken), .api (.error 403 "Password change required"),
        .accountSaved "Password updated" (some adminToken), .handled "admin"] ∧
      (GateKept changedPassword.history ↔ GateInformed changedPassword.history) := by
  have hrun : adminReplies changedPassword.history =
      [.redirect "/admin/" (some adminToken), .api (.error 403 "Password change required"),
        .accountSaved "Password updated" (some adminToken), .handled "admin"] ∧
      cookiesCheck sampleRuntime changedPassword.history = true := by decide +kernel
  exact ⟨hrun.1, gate_iff (reaches_play _ _ _) (cookiesIssued_of_check hrun.2)⟩

/-- The seeded admin logs in, takes another name, and comes back with the old session. -/
def renamedSession : AdminConfig :=
  play sampleRuntime.serve seededUsers
    (solo (.login "admin" "11") 0 3 sampleChoice ++
      solo (.changeUsername adminSession (some ("11", "root"))) 1 5 sampleChoice ++
      solo (.page adminSession "/admin/api/apps") 2 3 sampleChoice)

theorem renamedSession_passes :
    Interleaving.Reaches sampleRuntime.serve seededUsers renamedSession ∧
      CookiesIssued sampleRuntime renamedSession.history ∧
      (adminReplies renamedSession.history).getLast? = some (.handled "admin") ∧
      (renamedSession.shared.rows.map fun user => (user.username, user.mustChangePassword)) =
        [("root", true)] ∧
      ¬ GateKept renamedSession.history := by
  have hrun : cookiesCheck sampleRuntime renamedSession.history = true ∧
      (adminReplies renamedSession.history).getLast? = some (.handled "admin") ∧
      (renamedSession.shared.rows.map fun user => (user.username, user.mustChangePassword)) =
        [("root", true)] ∧
      (steps renamedSession.history).all gateHolds = false := by decide +kernel
  obtain ⟨hcookies, hlast, hrows, hfails⟩ := hrun
  refine ⟨reaches_play _ _ _, cookiesIssued_of_check hcookies, hlast, hrows, ?_⟩
  intro h
  have hholds := h.holds
  rw [hfails] at hholds
  cases hholds

end AutoDeploy
