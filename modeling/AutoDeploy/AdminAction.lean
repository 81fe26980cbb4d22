import AutoDeploy.AdminSession
import AutoDeploy.InterleavingMoment

namespace AutoDeploy

open Interleaving

/-- Some account had the name when the thread looked at the table, or wrote to it. -/
def Seen (own : List AdminStep) (username : String) : Prop :=
  ∃ step ∈ own, step.before.Named username ∨ step.after.Named username

def AdminCall.cookie : AdminCall → String
  | .login _ _ => ""
  | .changePassword creds _ | .changeUsername creds _ | .page creds _ => creds.cookie

/-- How a request has shown that it is of a user: by a password, or by its cookie. -/
def Authenticated (rt : AdminRuntime) (call : AdminCall) (own : List AdminStep)
    (username : String) : Prop :=
  Seen own username ∨ ∃ now, rt.validateJWT now call.cookie = some username

/-- Everything that one action of a request may do. -/
inductive AdminAction (rt : AdminRuntime) (call : AdminCall) (own : List AdminStep)
    (step : AdminStep) : Prop
  | reads : step.after = step.before → step.emitted = [] → AdminAction rt call own step
  | issued {token username : String} {now : Int} : step.after = step.before →
      step.emitted = [.issued token username] → rt.issueJWT now username = some token →
      Seen own username → AdminAction rt call own step
  | gated {path username : String} {fault : Option String} : step.after = step.before →
      step.emitted =
        [.gated path username fault.isSome (step.before.passesGate fault username)] →
      Authenticated rt call own username → AdminAction rt call own step
  | rehashed {id hash : String} {n : ℕ} : step.emitted = [] →
      step.before.update id (AdminUser.withPassword hash) = .ok (n, step.after) →
      AdminAction rt call own step
  | renamed {creds : AdminCredentials} {body : AccountBody} {id newUsername : String} {n : ℕ} :
      call = .changeUsername creds body → step.emitted = [] →
      step.before.update id (AdminUser.withUsername newUsername) = .ok (n, step.after) →
      AdminAction rt call own step

section Primitives

variable {rt : AdminRuntime} {call : AdminCall} {own own' : List AdminStep} {α : Type}
  {username : String}

abbrev AdminSafe (rt : AdminRuntime) (call : AdminCall) (own : List AdminStep) (p : AdminOp α)
    (Q : List AdminStep → α → Prop) : Prop :=
  p.Safe (fun _ => True) (AdminAction rt call) Q own

theorem Seen.mono (h : Seen own username) (hown : own <+: own') : Seen own' username := by
  obtain ⟨step, hm, hnamed⟩ := h
  exact ⟨step, hown.subset hm, hnamed⟩

theorem seen_before {step : AdminStep} (h : step.before.Named username) :
    Seen (own ++ [step]) username :=
  ⟨step, by simp, Or.inl h⟩

theorem seen_after {step : AdminStep} (h : step.after.Named username) :
    Seen (own ++ [step]) username :=
  ⟨step, by simp, Or.inr h⟩

theorem lookup_ok {users : AdminUsers} {fault : Option String} {user : AdminUser}
    (h : users.lookup fault username = .ok user) :
    fault = none ∧ users.find? username = some user := by
  unfold AdminUsers.lookup at h
  split at h
  next => cases h
  next =>
    split at h
    next => cases h
    next hfind =>
      cases h
      exact ⟨rfl, hfind⟩

theorem admin_getByUsername : AdminSafe rt call own (getByUsername username) fun own' value =>
    own <+: own' ∧ ∀ user, value = .ok user → user.username = username ∧ Seen own' username := by
  apply Prog.safe_atomic
  intro users k _
  refine ⟨.reads rfl rfl, List.prefix_append _ _, ?_⟩
  intro user hvalue
  obtain ⟨hm, hname⟩ := AdminUsers.find?_some.mp (lookup_ok hvalue).2
  exact ⟨hname, seen_before ⟨user, hm, hname⟩⟩

theorem admin_verifyPassword {password : String} :
    AdminSafe rt call own (verifyPassword rt.bcrypt username password) fun own' value =>
      own <+: own' ∧ ∀ user, value = .ok (some user) →
        user.username = username ∧ Seen own' username := by
  unfold verifyPassword
  apply Prog.safe_bind admin_getByUsername
  intro own₁ value h₁
  obtain ⟨hown, huser⟩ := h₁
  split
  next => exact ⟨hown, by simp⟩
  next => exact ⟨hown, by simp⟩
  next found =>
    split
    next =>
      refine ⟨hown, ?_⟩
      intro user he
      cases he
      exact huser _ rfl
    next => exact ⟨hown, by simp⟩

theorem admin_issueToken (hseen : Seen own username) :
    AdminSafe rt call own (issueToken rt username) fun _ _ => True := by
  apply Prog.safe_atomic
  intro users k _
  cases hissue : rt.issueJWT k.now username with
  | none => exact ⟨.reads rfl rfl, trivial⟩
  | some token => exact ⟨.issued rfl rfl hissue hseen, trivial⟩

theorem admin_hashPassword {password : String} :
    AdminSafe rt call own (hashPassword rt.bcrypt password) fun own' _ => own <+: own' := by
  apply Prog.safe_atomic
  intro users k _
  cases k.fault with
  | some text => exact ⟨.reads rfl rfl, List.prefix_append _ _⟩
  | none =>
    cases rt.bcrypt.generateFromPassword k.random password with
    | error text => exact ⟨.reads rfl rfl, List.prefix_append _ _⟩
    | ok hash => exact ⟨.reads rfl rfl, List.prefix_append _ _⟩

/-- An UPDATE of one row, whose action `action` tells. -/
theorem admin_execUserUpdate {id : String} {set : AdminUser → AdminUser}
    {Q : List AdminStep → Except AdminUserError Unit → Prop}
    (action : ∀ users n after, users.update id set = .ok (n, after) →
      AdminAction rt call own ⟨users, [], after⟩)
    (failed : ∀ users after e, Q (own ++ [⟨users, [], after⟩]) (.error e))
    (done : ∀ users n after, users.update id set = .ok (n + 1, after) →
      Q (own ++ [⟨users, [], after⟩]) (.ok ())) :
    AdminSafe rt call own (execUserUpdate id set) Q := by
  apply Prog.safe_atomic
  intro users k _
  cases k.fault with
  | some text => exact ⟨.reads rfl rfl, failed _ _ _⟩
  | none =>
    cases hupdate : users.update id set with
    | error e => exact ⟨.reads rfl rfl, failed _ _ _⟩
    | ok out =>
      obtain ⟨n, after⟩ := out
      cases n with
      | zero => exact ⟨action _ _ _ hupdate, failed _ _ _⟩
      | succ n => exact ⟨action _ _ _ hupdate, done _ _ _ hupdate⟩

theorem admin_authenticate {creds : AdminCredentials} {apiOrEvents : Bool}
    (hcookie : call.cookie = creds.cookie) :
    AdminSafe rt call own (authenticateAdminRequest rt creds apiOrEvents) fun own' value =>
      own <+: own' ∧ ∀ username, value = some username → Authenticated rt call own' username := by
  unfold authenticateAdminRequest
  split
  next =>
    split
    next => exact ⟨List.prefix_refl own, by simp⟩
    next =>
      apply Prog.safe_bind admin_verifyPassword
      intro own₁ value h₁
      obtain ⟨hown, huser⟩ := h₁
      split
      next =>
        refine ⟨hown, ?_⟩
        intro username he
        cases he
        obtain ⟨hname, hseen⟩ := huser _ rfl
        exact Or.inl (hname ▸ hseen)
      next => exact ⟨hown, by simp⟩
  next =>
    refine Prog.safe_bind (P := fun own' _ => own <+: own') ?_ ?_
    · exact Prog.safe_atomic fun users k _ => ⟨.reads rfl rfl, List.prefix_append _ _⟩
    · intro own₁ now hown
      refine ⟨hown, ?_⟩
      intro username hvalid
      exact Or.inr ⟨now, hcookie ▸ hvalid⟩

theorem admin_passwordGate {path : String} (h : Authenticated rt call own username) :
    AdminSafe rt call own (passwordGate path username) fun own' passed => own <+: own' ∧
      (passed = true → ∃ step ∈ own', ∃ failed,
        .gated path username failed true ∈ step.emitted) := by
  apply Prog.safe_atomic
  intro users k _
  refine ⟨.gated rfl rfl h, List.prefix_append _ _, ?_⟩
  intro hpassed
  refine ⟨_, List.mem_append_right _ (List.mem_singleton_self _), k.fault.isSome, ?_⟩
  dsimp only at hpassed ⊢
  simp [hpassed]

/-- The handler behind the middleware runs once its user is authenticated. -/
theorem admin_sessionAuth {path : String} {creds : AdminCredentials}
    {next : String → AdminOp AdminReply} {Q : List AdminStep → AdminReply → Prop}
    (hcookie : call.cookie = creds.cookie)
    (refused : ∀ own' reply, (∀ username, reply ≠ .handled username) → Q own' reply)
    (hnext : ∀ own' username, (isGated path = true → ∃ step ∈ own', ∃ failed,
        .gated path username failed true ∈ step.emitted) →
      AdminSafe rt call own' (next username) Q) :
    AdminSafe rt call own (sessionAuth rt path creds next) Q := by
  unfold sessionAuth
  apply Prog.safe_bind (admin_authenticate hcookie)
  intro own₁ value h₁
  obtain ⟨-, hauthenticated⟩ := h₁
  cases value with
  | none =>
    dsimp only
    split
    next => exact refused _ _ (by simp)
    next => exact refused _ _ (by simp)
  | some username =>
    dsimp only
    split
    next =>
      apply Prog.safe_bind (admin_passwordGate (hauthenticated username rfl))
      intro own₂ passed h₂
      cases passed with
      | false => exact refused _ _ (by simp)
      | true => exact hnext own₂ username fun _ => h₂.2 rfl
    next hgated => exact hnext own₁ username fun h => absurd h hgated

theorem admin_verifyCurrent {currentPassword : String} :
    AdminSafe rt call own (verifyCurrent rt username currentPassword) fun own' value =>
      (∀ reply, value = .inl reply → ∀ name, reply ≠ .handled name) ∧
        ∀ user, value = .inr user → Seen own' username := by
  unfold verifyCurrent
  apply Prog.safe_bind admin_verifyPassword
  intro own₁ value h₁
  split
  next => exact ⟨by simp, by simp⟩
  next => exact ⟨by simp, by simp⟩
  next =>
    refine ⟨by simp, ?_⟩
    intro user _
    exact (h₁.2 _ rfl).2

theorem admin_changePassword {body : AccountBody} :
    AdminSafe rt call own (changePassword rt body username) fun _ reply =>
      ∀ name, reply ≠ .handled name := by
  unfold changePassword
  split
  next => exact fun _ => by simp
  next currentPassword newPassword =>
    split
    next => exact fun _ => by simp
    next =>
      apply Prog.safe_bind admin_verifyCurrent
      intro own₁ value h₁
      cases value with
      | inl reply => exact h₁.1 reply rfl
      | inr user =>
        have hseen := h₁.2 user rfl
        have hupdate : AdminSafe rt call own₁ (updatePassword rt.bcrypt user.id newPassword)
            fun own' _ => Seen own' username := by
          unfold updatePassword
          apply Prog.safe_bind admin_hashPassword
          intro own₂ hash hown
          cases hash with
          | error e => exact hseen.mono hown
          | ok hash =>
            apply admin_execUserUpdate
            · exact fun _ _ _ h => .rehashed rfl h
            · exact fun _ _ _ => (hseen.mono hown).mono (List.prefix_append _ _)
            · exact fun _ _ _ _ => (hseen.mono hown).mono (List.prefix_append _ _)
        apply Prog.safe_bind hupdate
        intro own₂ updated hseen₂
        cases updated with
        | error e => exact fun _ => by simp
        | ok _ =>
          apply Prog.safe_bind (admin_issueToken hseen₂)
          intro own₃ token _
          exact fun _ => by simp

theorem admin_changeUsername {creds : AdminCredentials} {body : AccountBody}
    (hcall : call = .changeUsername creds body) :
    AdminSafe rt call own (changeUsername rt body username) fun _ reply =>
      ∀ name, reply ≠ .handled name := by
  unfold changeUsername
  split
  next => exact fun _ => by simp
  next currentPassword name =>
    dsimp only
    split
    next => exact fun _ => by simp
    next =>
      apply Prog.safe_bind admin_verifyCurrent
      intro own₁ value h₁
      cases value with
      | inl reply => exact h₁.1 reply rfl
      | inr user =>
        have hupdate : AdminSafe rt call own₁ (updateUsername user.id (GoStrings.trimSpace name))
            fun own' value => value = .ok () → Seen own' (GoStrings.trimSpace name) := by
          unfold updateUsername
          have hexec : AdminSafe rt call own₁
              (execUserUpdate user.id (AdminUser.withUsername (GoStrings.trimSpace name)))
              fun own' value => value = .ok () → Seen own' (GoStrings.trimSpace name) := by
            apply admin_execUserUpdate
            · exact fun _ _ _ h => .renamed hcall rfl h
            · exact fun _ _ _ => by simp
            · intro users n after h _
              exact seen_after (AdminUsers.named_renamed h (fun _ => rfl) (by omega))
          apply Prog.safe_bind hexec
          intro own₂ result hresult
          split
          next => exact fun h => by cases h
          next => exact hresult
        apply Prog.safe_bind hupdate
        intro own₂ updated hseen
        split
        next => exact fun _ => by simp
        next => exact fun _ => by simp
        next =>
          apply Prog.safe_bind (admin_issueToken (hseen rfl))
          intro own₃ token _
          exact fun _ => by simp

/-- What the reply of a request says: the handler of a gated path runs after the gate. -/
def AdminReturns : AdminCall → List AdminStep → AdminReply → Prop
  | .page _ path, own, .handled username => isGated path = true → ∃ step ∈ own, ∃ failed,
      .gated path username failed true ∈ step.emitted
  | _, _, _ => True

theorem program_admin (rt : AdminRuntime) (call : AdminCall) :
    AdminSafe rt call [] (rt.serve call) (AdminReturns call) := by
  cases call with
  | login formUsername password =>
    unfold AdminRuntime.serve handleLogin
    dsimp only
    apply Prog.safe_bind admin_verifyPassword
    intro own₁ value h₁
    split
    next => trivial
    next => trivial
    next =>
      apply Prog.safe_bind (admin_issueToken (h₁.2 _ rfl).2)
      intro own₂ token _
      cases token with
      | none => trivial
      | some token => trivial
  | changePassword creds body =>
    unfold AdminRuntime.serve
    apply admin_sessionAuth
    · rfl
    · exact fun _ _ _ => trivial
    · exact fun own' username _ => admin_changePassword.mono fun _ _ _ => trivial
  | changeUsername creds body =>
    unfold AdminRuntime.serve
    apply admin_sessionAuth
    · rfl
    · exact fun _ _ _ => trivial
    · exact fun own' username _ => (admin_changeUsername rfl).mono fun _ _ _ => trivial
  | page creds path =>
    unfold AdminRuntime.serve
    apply admin_sessionAuth
    · rfl
    · intro own' reply hreply
      cases reply with
      | handled username => exact absurd rfl (hreply username)
      | _ => trivial
    · exact fun own' username hgate => hgate

end Primitives

end AutoDeploy
