import Rawbin.Verify.Lineages

/-!
# Disabled accounts

An operator may disable an account and enable it again; no route does. The password login and the
login by SMS read `is_active` before they issue a token pair. A refresh reads only the row of the
presented token, so a disabled user who holds a valid refresh token gets new pairs.
-/

namespace Rawbin

/-- A request, the passing of time, or an operator who disables or enables an account. -/
inductive AccountEvent where
  | request (r : Request)
  | tick (dt : Nat)
  | setActive (u : Uuid) (b : Bool)

def AccountEvent.apply (E : Env) : AccountEvent → World → World
  | .request r, w => (serve E r w).2
  | .tick dt, w => w.tick dt
  | .setActive u b, w =>
    { w with db := { w.db with
      users := w.db.users.update u fun user => { user with isActive := b } } }

/-- What the schema says about `refresh_tokens`: hashes are unique, and a row refers to a user. -/
structure Db.TokensLinked (db : Db) : Prop where
  unique : db.refreshTokens.Unique RefreshToken.tokenHash
  user : ∀ id rt, db.refreshTokens.get? id = some rt → db.users.contains rt.userId = true

/-- Tokens were issued for `u`: there is a new row for `u`, or the response has a token of `u`. -/
def NewTokens (E : Env) (u : Uuid) (w : World) (response : Response) (w' : World) : Prop :=
  (∃ id rt, w.db.refreshTokens.get? id = none ∧ w'.db.refreshTokens.get? id = some rt ∧
    rt.userId = u) ∨
  ∃ pair, response.tokens = some pair ∧
    (E.crypto.Subject u pair.accessToken ∨ E.crypto.Subject u pair.refreshToken)

/-- The uuids drawn for a pair are new: no row has the key, and none records a token with the
`jti`. -/
def Draws.New (E : Env) (w : World) (draws : Draws) : Prop :=
  w.db.refreshTokens.contains draws.tokenId = false ∧
    ∀ id rt p, w.db.refreshTokens.get? id = some rt →
      rt.tokenHash = hashToken E (E.crypto.jwtEncode p) → p.jti ≠ draws.refreshJti

/-- The request is a refresh, and the token that it presents is a valid one of `u`. -/
def AuthRoute.RefreshesOf (E : Env) (w : World) (u : Uuid) : AuthRoute → Prop
  | .refresh body => ∃ id rt, w.db.refreshTokens.get? id = some rt ∧
    rt.tokenHash = hashToken E body.refreshToken ∧ rt.isValid w.now = true ∧ rt.userId = u
  | _ => False

/-! ## The schema -/

theorem Db.TokensLinked.constraint : Db.Constraint Db.TokensLinked := by
  intro wr db hv h
  cases wr with
  | insertUser id row =>
    refine ⟨h.unique, fun id rt hr => ?_⟩
    exact (Table.contains_insert ..).mpr (.inl (h.user id rt hr))
  | updateUser id patch =>
    refine ⟨h.unique, fun id rt hr => ?_⟩
    exact (Table.contains_update ..).trans (h.user id rt hr)
  | insertRefreshToken id row =>
    obtain ⟨hid, hhash, huser⟩ := insertRefreshToken_violates.mp hv
    refine ⟨h.unique.insert hid hhash, fun id' rt hr => ?_⟩
    rcases Table.get?_of_insert hr with hr | ⟨_, rfl⟩
    · exact h.user id' rt hr
    · exact huser
  | updateRefreshToken id b =>
    refine ⟨fun id₁ rt₁ id₂ rt₂ h₁ h₂ he => ?_, fun id' rt hr => ?_⟩
    · obtain ⟨rt₁', h₁', rfl | rfl⟩ := Table.get?_of_update h₁ <;>
        obtain ⟨rt₂', h₂', rfl | rfl⟩ := Table.get?_of_update h₂ <;>
        exact h.unique _ _ _ _ h₁' h₂' he
    · obtain ⟨rt', hr', rfl | rfl⟩ := Table.get?_of_update hr
      · exact h.user id' _ hr'
      · exact h.user id' rt' hr'
  | _ => exact ⟨h.unique, h.user⟩

section
variable {E : Env} {w w₀ w' : World} {u v : Uuid} {draws : Draws} {response : Response}

theorem AccountEvent.linked (e : AccountEvent) (h : w.db.TokensLinked) :
    (e.apply E w).db.TokensLinked := by
  cases e with
  | request r => exact serve_constraint Db.TokensLinked.constraint h
  | tick dt => exact h
  | setActive u b =>
    refine ⟨h.unique, fun id rt hr => ?_⟩
    exact (Table.contains_update ..).trans (h.user id rt hr)

theorem AccountEvent.reach_linked (h₀ : w₀.db.TokensLinked)
    (H : Reach (AccountEvent.apply E) (fun _ _ => True) w₀ w) : w.db.TokensLinked :=
  H.invariant (P := fun w => w.db.TokensLinked) h₀ fun _ e h _ => e.linked h

/-! ## For whom tokens are issued -/

theorem NoPair.not_newTokens (h : NoPair w response w') : ¬ NewTokens E u w response w' := by
  rintro (⟨id, rt, hnone, hsome, _⟩ | ⟨pair, hpair, _⟩)
  · rw [h.table, hnone] at hsome
    cases hsome
  · cases h.tokens.symm.trans hpair

theorem Revokes.get?_eq_none {hash : String} {tokens after : Table Uuid RefreshToken} {id : Uuid}
    (h : Revokes hash tokens after) (hid : tokens.get? id = none) : after.get? id = none := by
  rw [h, hid, Option.map_none]

theorem LogoutOutcome.not_newTokens (h : LogoutOutcome E w token response w') :
    ¬ NewTokens E u w response w' := by
  rintro (⟨id, rt, hnone, hsome, _⟩ | ⟨pair, hpair, _⟩)
  · cases (h.table.get?_eq_none hnone).symm.trans hsome
  · cases h.tokens.symm.trans hpair

theorem Crypto.Jwt.subject {C : Crypto} (hjwt : C.Jwt) {p : Payload}
    (h : C.Subject u (C.jwtEncode p)) : p.sub = u := by
  obtain ⟨q, hq, rfl⟩ := h
  exact (hjwt.encode q p hq).1.symm

namespace Issued

variable {base : Table Uuid RefreshToken}

/-- A pair for `v` is issued for nobody else. -/
theorem eq_of_newTokens (hjwt : E.crypto.Jwt) (h : Issued E w draws v base response w')
    (hbase : ∀ id, w.db.refreshTokens.get? id = none → base.get? id = none)
    (hnew : NewTokens E u w response w') : v = u := by
  obtain ⟨id, rt, hnone, hsome, rfl⟩ | ⟨pair, hpair, hsubject⟩ := hnew
  · rw [h.table] at hsome
    rcases Table.get?_of_insert hsome with hold | ⟨_, rfl⟩
    · cases (hbase id hnone).symm.trans hold
    · rfl
  · cases h.tokens.symm.trans hpair
    obtain hs | hs := hsubject
    · exact hjwt.subject hs
    · exact hjwt.subject hs

theorem newTokens (h : Issued E w draws u base response w')
    (hid : w.db.refreshTokens.contains draws.tokenId = false) : NewTokens E u w response w' := by
  have hnone : w.db.refreshTokens.get? draws.tokenId = none :=
    Table.get?_eq_none_iff.mpr (Table.contains_eq_false_iff.mp hid)
  refine .inl ⟨draws.tokenId, issuedRow E w.now u draws, hnone, ?_, rfl⟩
  rw [h.table, Table.get?_insert_self h.fresh]

end Issued

/-- A sign-in issues tokens for nobody but its user. -/
theorem SignInOf.of_newTokens {P : Uuid → Prop} (hjwt : E.crypto.Jwt)
    (h : SignInOf E P w draws response w') (hnew : NewTokens E u w response w') : P u := by
  obtain h | ⟨v, hv, h⟩ := h
  · exact absurd hnew h.not_newTokens
  · exact h.eq_of_newTokens hjwt (fun _ h => h) hnew ▸ hv

theorem Db.ActiveUser.isActive {db : Db} (h : db.ActiveUser u) (hu : db.users.get? u = some user) :
    user.isActive = true := by
  obtain ⟨user', hu', ha⟩ := h
  cases hu.symm.trans hu'
  exact ha

theorem RefreshOutcome.of_newTokens {body : RefreshRequest} (hjwt : E.crypto.Jwt)
    (h : RefreshOutcome E w body.refreshToken draws response w')
    (hnew : NewTokens E u w response w') : (AuthRoute.refresh body).RefreshesOf E w u := by
  cases h with
  | rejected | collided =>
    exact absurd hnew (NoPair.not_newTokens ⟨rfl, rfl, rfl, rfl⟩)
  | rotated id rt base hrow hhash hvalid hbase hissued =>
    have hu : rt.userId = u := hissued.eq_of_newTokens hjwt (fun _ => hbase.get?_eq_none) hnew
    exact ⟨id, rt, hrow, hhash, hvalid, hu⟩

/-- New uuids do not let the INSERT of a row fail. -/
theorem Draws.New.insert (hnew : draws.New E w) (hlinked : w.db.TokensLinked) {id : Uuid}
    {rt : RefreshToken} (hrow : w.db.refreshTokens.get? id = some rt)
    {base : Table Uuid RefreshToken} {hash : String}
    (hbase : Revokes hash w.db.refreshTokens base) :
    base.contains draws.tokenId = false ∧
      (∀ id' rt', base.get? id' = some rt' →
        rt'.tokenHash ≠ (issuedRow E w.now rt.userId draws).tokenHash) ∧
      w.db.users.contains rt.userId = true := by
  refine ⟨?_, fun id' rt' hrow' he => ?_, hlinked.user id rt hrow⟩
  · have hnone : w.db.refreshTokens.get? draws.tokenId = none :=
      Table.get?_eq_none_iff.mpr (Table.contains_eq_false_iff.mp hnew.1)
    rw [Table.contains, hbase.get?_eq_none hnone]
    rfl
  · rw [hbase] at hrow'
    obtain ⟨old, hold, rfl⟩ := Option.map_eq_some_iff.mp hrow'
    rw [RefreshToken.revokedBy_tokenHash] at he
    exact hnew.2 id' old _ hold he rfl

theorem RefreshOutcome.newTokens {body : RefreshRequest} (hlinked : w.db.TokensLinked)
    (hfresh : draws.New E w) (h : RefreshOutcome E w body.refreshToken draws response w')
    (hof : (AuthRoute.refresh body).RefreshesOf E w u) : NewTokens E u w response w' := by
  obtain ⟨id, rt, hrow, hhash, hvalid, rfl⟩ := hof
  cases h with
  | rejected h =>
    cases (h id rt hrow hhash).symm.trans hvalid
  | collided id' rt' base hrow' hbase hv => exact absurd (hfresh.insert hlinked hrow' hbase) hv
  | rotated id' rt' base hrow' hhash' _ _ hissued =>
    cases hlinked.unique _ _ _ _ hrow' hrow (hhash'.trans hhash.symm)
    cases hrow'.symm.trans hrow
    exact hissued.newTokens hfresh.1

/-- **Disabled accounts.** After any history, a request issues tokens for a disabled user only if
it is a refresh that presents a valid refresh token of that user; and then it does, when the uuids
that it draws are new. -/
theorem disabled_accounts (hjwt : E.crypto.Jwt) (h₀ : w₀.db.TokensLinked)
    (H : Reach (AccountEvent.apply E) (fun _ _ => True) w₀ w) {user : User}
    (hu : w.db.users.get? u = some user) (hdisabled : user.isActive = false) (route : AuthRoute)
    (draws : Draws) :
    let r := serve E (.auth route draws) w
    (NewTokens E u w r.1 r.2 → route.RefreshesOf E w u) ∧
      (draws.New E w → (NewTokens E u w r.1 r.2 ↔ route.RefreshesOf E w u)) := by
  intro r
  have hlinked : w.db.TokensLinked := AccountEvent.reach_linked h₀ H
  have hinactive (h : w.db.ActiveUser u) : False := by
    rw [h.isActive hu] at hdisabled
    cases hdisabled
  have honly (hnew : NewTokens E u w r.1 r.2) : route.RefreshesOf E w u := by
    cases route with
    | login body => exact (hinactive ((login_outcome body).of_newTokens hjwt hnew)).elim
    | verifyOtp body =>
      exact (hinactive ((verifyOtp_outcome body).of_newTokens hjwt hnew).activeUser).elim
    | register body =>
      have hunused : w.db.users.contains u = false :=
        (register_outcome body).of_newTokens hjwt hnew
      cases (Table.contains_of_get? hu).symm.trans hunused
    | requestOtp body => exact absurd hnew (requestOtp_outcome body).not_newTokens
    | logout body => exact absurd hnew (logout_outcome hlinked.unique body).not_newTokens
    | refresh body => exact (refresh_outcome hlinked.unique body).of_newTokens hjwt hnew
  refine ⟨honly, fun hfresh => ⟨honly, fun hof => ?_⟩⟩
  cases route with
  | refresh body => exact (refresh_outcome hlinked.unique body).newTokens hlinked hfresh hof
  | _ => exact hof.elim

end

/-! ## A disabled user who kept a token -/

namespace Sample

def aliceLogsIn : AccountEvent :=
  .request (.auth (.login ⟨"alice@rawbin.io", "password"⟩) (draws 0))

/-- Alice logged in before her account was disabled. -/
def disabledAlice : World :=
  (AccountEvent.setActive 1 false).apply env (aliceLogsIn.apply env world)

/-- She presents the refresh token that she got. -/
def aliceRefresh : AuthRoute := .refresh ⟨jwtEncode ⟨1, .refresh, 0, 0, 0⟩⟩

theorem disabledAlice_reached :
    Reach (AccountEvent.apply env) (fun _ _ => True) world disabledAlice :=
  (Reach.refl.step (e := aliceLogsIn) trivial).step (e := AccountEvent.setActive 1 false) trivial

theorem disabledAlice_user : disabledAlice.db.users.get? 1 =
    some { user "alice@rawbin.io" with isActive := false } := by
  decide +kernel

theorem world_tokensLinked : world.db.TokensLinked where
  unique := Table.unique_empty _
  user _ _ h := nomatch h

end Sample

/-- A password login of Alice, whose account is disabled, issues nothing. -/
theorem aliceLogin_disabled : ¬ NewTokens Sample.env 1 Sample.disabledAlice
    (serve Sample.env (.auth (.login ⟨"alice@rawbin.io", "password"⟩) (Sample.draws 1))
      Sample.disabledAlice).1
    (serve Sample.env (.auth (.login ⟨"alice@rawbin.io", "password"⟩) (Sample.draws 1))
      Sample.disabledAlice).2 := by
  intro hnew
  exact (disabled_accounts Sample.jwt Sample.world_tokensLinked Sample.disabledAlice_reached
    Sample.disabledAlice_user rfl _ _).1 hnew

/-- A refresh issues a new pair for her. -/
theorem aliceRefresh_issues : ¬ ∀ w, Reach (AccountEvent.apply Sample.env) (fun _ _ => True)
      Sample.world w → ∀ u user, w.db.users.get? u = some user → user.isActive = false →
    ∀ (route : AuthRoute) (draws : Draws), ¬ NewTokens Sample.env u w
      (serve Sample.env (.auth route draws) w).1 (serve Sample.env (.auth route draws) w).2 := by
  intro h
  refine h _ Sample.disabledAlice_reached 1 _ Sample.disabledAlice_user rfl Sample.aliceRefresh
    (Sample.draws 1) (.inl ⟨1, ?_⟩)
  have hrow : ((serve Sample.env (.auth Sample.aliceRefresh (Sample.draws 1))
      Sample.disabledAlice).2.db.refreshTokens.get? 1).map RefreshToken.userId = some 1 := by
    decide +kernel
  obtain ⟨rt, hrt, hu⟩ := Option.map_eq_some_iff.mp hrow
  exact ⟨rt, by decide +kernel, hrt, hu⟩

end Rawbin
