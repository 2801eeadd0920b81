import Mathlib.Data.Fintype.EquivFin
import Rawbin.Verify.TokenPairs

/-!
# Session lineages

A sign-in starts a lineage of refresh tokens, and a refresh continues the lineage of the token that
it presents. Beside the world a run keeps the lineages. Each of their tokens has a row, and the row
is unrevoked iff the token is the last one of its lineage and was not logged out: a refresh revokes
the row before the new token becomes the last one, so it is a logout followed by an INSERT.
-/

namespace Rawbin

/-- What the results rely on of the library for JWTs: a token spells out its subject, its type and
its id, and decoding reads them from it. -/
structure Crypto.Jwt (C : Crypto) : Prop where
  encode : ∀ p q, C.jwtEncode p = C.jwtEncode q → p.sub = q.sub ∧ p.type = q.type ∧ p.jti = q.jti
  decode : ∀ now p q, C.jwtDecode now (C.jwtEncode p) = some q →
    q.sub = p.sub ∧ q.type = p.type ∧ q.jti = p.jti

/-- The token was issued to `u`. -/
def Crypto.Subject (C : Crypto) (u : Uuid) (token : String) : Prop :=
  ∃ p, C.jwtEncode p = token ∧ p.sub = u

/-- The refresh tokens that descend from one sign-in. -/
structure Lineage where
  last : String
  earlier : List String
  /-- The last token was logged out. -/
  loggedOut : Bool

namespace Lineage

def tokens (l : Lineage) : List String := l.last :: l.earlier

def start (token : String) : Lineage := ⟨token, [], false⟩

/-- The last token is exchanged for another one. -/
def extend (l : Lineage) (token : String) : Lineage := ⟨token, l.tokens, false⟩

/-- A token was presented to `/auth/logout`. -/
def logout (token : String) (l : Lineage) : Lineage :=
  { l with loggedOut := l.loggedOut || l.last = token }

end Lineage

/-- A world, the lineages in the order of their sign-ins, and the values drawn for token pairs. -/
structure SessionHistory where
  world : World
  lineages : List Lineage
  drawn : List Draws

inductive SessionEvent where
  | request (route : AuthRoute) (draws : Draws)
  | tick (dt : Nat)

/-- The route may issue a token pair. -/
def AuthRoute.issues : AuthRoute → Bool
  | .register _ | .login _ | .verifyOtp _ | .refresh _ => true
  | .requestOtp _ | .logout _ => false

namespace SessionHistory

/-- Continue the lineage of the presented token. -/
def extendWith (presented token : String) (ls : List Lineage) : List Lineage :=
  ls.map fun l => if presented ∈ l.tokens then l.extend token else l

/-- What a request and its response do to the lineages. -/
def record (route : AuthRoute) (response : Response) (ls : List Lineage) : List Lineage :=
  match route, response.tokens with
  | .logout body, _ => ls.map (Lineage.logout body.refreshToken)
  | .refresh body, some pair => extendWith body.refreshToken pair.refreshToken ls
  | _, some pair => ls ++ [.start pair.refreshToken]
  | _, none => ls

/-- The uuids drawn for a pair are new. -/
def Fresh (h : SessionHistory) (draws : Draws) : Prop :=
  ∀ d ∈ h.drawn, d.tokenId ≠ draws.tokenId ∧ d.refreshJti ≠ draws.refreshJti

end SessionHistory

def SessionEvent.apply (E : Env) : SessionEvent → SessionHistory → SessionHistory
  | .request route draws, h =>
    let r := serve E (.auth route draws) h.world
    { world := r.2
      lineages := SessionHistory.record route r.1 h.lineages
      drawn := if route.issues then draws :: h.drawn else h.drawn }
  | .tick dt, h => { h with world := h.world.tick dt }

/-- No uuid is drawn twice. -/
def SessionEvent.Allowed (h : SessionHistory) : SessionEvent → Prop
  | .request route draws => route.issues = true → h.Fresh draws
  | .tick _ => True

/-- A refresh with this token succeeds. -/
def Redeemable (E : Env) (w : World) (token : String) : Prop :=
  ∃ draws, (serve E (.auth (.refresh ⟨token⟩) draws) w).1.status = 200

/-- The lineage can go on: its last token was not logged out, and is not expired. -/
def Lineage.Alive (E : Env) (w : World) (l : Lineage) : Prop :=
  l.loggedOut = false ∧ ∃ id rt, w.db.refreshTokens.get? id = some rt ∧
    rt.tokenHash = hashToken E l.last ∧ w.now < rt.expiresAt

/-! ## What holds of the lineages -/

/-- Where a row of `refresh_tokens` comes from. -/
structure RowOrigin (E : Env) (db : Db) (ls : List Lineage) (drawn : List Draws) (id : Uuid)
    (rt : RefreshToken) : Prop where
  user : db.users.contains rt.userId = true
  drawn : ∃ draws ∈ drawn, draws.tokenId = id ∧
    ∃ now, rt.tokenHash = (issuedRow E now rt.userId draws).tokenHash
  lineage : ∃ l ∈ ls, ∃ token ∈ l.tokens, rt.tokenHash = hashToken E token

/-- The lineages and the table say the same. -/
structure LineageInv (E : Env) (db : Db) (ls : List Lineage) (drawn : List Draws) : Prop where
  unique : db.refreshTokens.Unique RefreshToken.tokenHash
  origin : ∀ id rt, db.refreshTokens.get? id = some rt → RowOrigin E db ls drawn id rt
  stored : ∀ l ∈ ls, ∀ token ∈ l.tokens, ∃ id rt, db.refreshTokens.get? id = some rt ∧
    rt.tokenHash = hashToken E token ∧
    (rt.revoked = false ↔ l.last = token ∧ l.loggedOut = false)
  apart : ∀ (i j : Nat) (l l' : Lineage) (token : String), ls[i]? = some l → ls[j]? = some l' →
    token ∈ l.tokens → token ∈ l'.tokens → i = j

/-- A token joins the lineages: it starts one, or continues one whose last token was logged out. -/
inductive Grows (token : String) (ls : List Lineage) : List Lineage → Prop where
  | started : Grows token ls (ls ++ [.start token])
  | extended {i : Nat} {l : Lineage} (hl : ls[i]? = some l) (hout : l.loggedOut = true) :
    Grows token ls (ls.set i (l.extend token))

namespace Grows

variable {token : String} {ls ls' : List Lineage}

/-- A lineage is an old one, or it is the one that the token joined. -/
theorem getElem? (h : Grows token ls ls') : ∃ i₀ : Nat, ∀ (i : Nat) (l' : Lineage),
    ls'[i]? = some l' → ls[i]? = some l' ∨
      i = i₀ ∧ l'.last = token ∧ l'.loggedOut = false ∧
        ∀ x ∈ l'.earlier, ∃ l, ls[i]? = some l ∧ l.loggedOut = true ∧ x ∈ l.tokens := by
  cases h with
  | started =>
    refine ⟨ls.length, fun i l' hl' => ?_⟩
    rcases Nat.lt_or_ge i ls.length with hi | hi
    · rw [List.getElem?_append_left hi] at hl'
      exact .inl hl'
    · rw [List.getElem?_append_right hi] at hl'
      obtain ⟨hlt, rfl⟩ := List.getElem?_eq_some_iff.mp hl'
      have hi' : i = ls.length := by
        rw [List.length_singleton] at hlt
        omega
      refine .inr ⟨hi', ?_⟩
      simp [Lineage.start]
  | @extended i₀ l hl hout =>
    refine ⟨i₀, fun i l' hl' => ?_⟩
    rw [List.getElem?_set] at hl'
    split at hl'
    · rename_i heq
      split at hl'
      · cases hl'
        exact .inr ⟨heq.symm, rfl, rfl, fun x hx => ⟨l, heq ▸ hl, hout, hx⟩⟩
      · cases hl'
    · exact .inl hl'

/-- No token is lost. -/
theorem subset (h : Grows token ls ls') (hl : l ∈ ls) : ∃ l' ∈ ls', l.tokens ⊆ l'.tokens := by
  cases h with
  | started => exact ⟨l, List.mem_append_left _ hl, fun _ h => h⟩
  | @extended i₀ l₀ hl₀ hout =>
    obtain ⟨i, hi⟩ := List.mem_iff_getElem?.mp hl
    by_cases heq : i₀ = i
    · rw [heq, hi] at hl₀
      cases hl₀
      have hlt : i₀ < ls.length := heq ▸ (List.getElem?_eq_some_iff.mp hi).1
      exact ⟨_, List.mem_set hlt _, List.subset_cons_self ..⟩
    · refine ⟨l, List.mem_iff_getElem?.mpr ⟨i, ?_⟩, fun _ h => h⟩
      rw [List.getElem?_set_ne heq]
      exact hi

theorem joined (h : Grows token ls ls') : ∃ l' ∈ ls', token ∈ l'.tokens := by
  cases h with
  | started => exact ⟨_, List.mem_append_right _ (List.mem_singleton_self _), List.mem_cons_self⟩
  | @extended i₀ l₀ hl₀ hout =>
    exact ⟨_, List.mem_set (List.getElem?_eq_some_iff.mp hl₀).1 _, List.mem_cons_self⟩

/-- Different lineages still have different tokens when a new token has joined. -/
theorem apart (h : Grows token ls ls') (hnew : ∀ l ∈ ls, token ∉ l.tokens)
    (hapart : ∀ (i j : Nat) (l l' : Lineage) (x : String), ls[i]? = some l → ls[j]? = some l' →
      x ∈ l.tokens → x ∈ l'.tokens → i = j) (i j : Nat) (l l' : Lineage) (x : String)
    (hl : ls'[i]? = some l) (hl' : ls'[j]? = some l') (hx : x ∈ l.tokens) (hx' : x ∈ l'.tokens) :
    i = j := by
  obtain ⟨i₀, hat⟩ := h.getElem?
  rcases hat i l hl with hi | ⟨hi, hlast, -, hearlier⟩ <;>
    rcases hat j l' hl' with hj | ⟨hj, hlast', -, hearlier'⟩
  · exact hapart i j l l' x hi hj hx hx'
  · rcases List.mem_cons.mp hx' with rfl | hx'
    · exact absurd (hlast' ▸ hx) (hnew l (List.mem_of_getElem? hi))
    · obtain ⟨l₀, hl₀, -, hxl⟩ := hearlier' x hx'
      exact hapart i j l l₀ x hi hl₀ hx hxl
  · rcases List.mem_cons.mp hx with rfl | hx
    · exact absurd (hlast ▸ hx') (hnew l' (List.mem_of_getElem? hj))
    · obtain ⟨l₀, hl₀, -, hxl⟩ := hearlier x hx
      exact hapart i j l₀ l' x hl₀ hj hxl hx'
  · rw [hi, hj]

end Grows

namespace LineageInv

variable {E : Env} {db db' : Db} {ls ls' : List Lineage} {drawn : List Draws} {token : String}

theorem empty (h : db.refreshTokens = .empty) : LineageInv E db [] [] where
  unique := h ▸ Table.unique_empty _
  origin id rt hr := by
    rw [h, Table.get?_empty] at hr
    cases hr
  stored l hl := absurd hl List.not_mem_nil
  apart i j l l' token hl := by
    rw [List.getElem?_nil] at hl
    cases hl

/-- More users, and more values drawn. -/
theorem mono {drawn' : List Draws} (H : LineageInv E db ls drawn)
    (htable : db'.refreshTokens = db.refreshTokens)
    (husers : ∀ v, db.users.contains v = true → db'.users.contains v = true)
    (hdrawn : drawn ⊆ drawn') : LineageInv E db' ls drawn' where
  unique := htable ▸ H.unique
  origin id rt hr := by
    obtain ⟨huser, ⟨draws, hd, hdraws⟩, hl⟩ := H.origin id rt (htable ▸ hr)
    exact ⟨husers _ huser, ⟨draws, hdrawn hd, hdraws⟩, hl⟩
  stored := htable ▸ H.stored
  apart := H.apart

/-- The lineage of a token with an unrevoked row. -/
theorem current (H : LineageInv E db ls drawn) (hinj : Function.Injective E.crypto.sha256)
    {id : Uuid} {rt : RefreshToken} (hrow : db.refreshTokens.get? id = some rt)
    (hhash : rt.tokenHash = hashToken E token) (hrevoked : rt.revoked = false) :
    ∃ l ∈ ls, l.last = token ∧ l.loggedOut = false := by
  obtain ⟨l, hl, token', htoken', hhash'⟩ := (H.origin id rt hrow).lineage
  have heq : token' = token := hinj (hhash'.symm.trans hhash)
  obtain ⟨id', rt', hrow', hh', hiff⟩ := H.stored l hl token' htoken'
  cases H.unique _ _ _ _ hrow' hrow (hh'.trans hhash'.symm)
  cases hrow'.symm.trans hrow
  exact ⟨l, hl, heq ▸ hiff.mp hrevoked⟩

/-- A token is logged out. -/
theorem logout (H : LineageInv E db ls drawn) (hinj : Function.Injective E.crypto.sha256)
    (htable : Revokes (hashToken E token) db.refreshTokens db'.refreshTokens)
    (husers : db'.users = db.users) :
    LineageInv E db' (ls.map (Lineage.logout token)) drawn where
  unique := htable.unique H.unique
  origin id rt hr := by
    rw [htable] at hr
    obtain ⟨rt₀, h₀, rfl⟩ := Option.map_eq_some_iff.mp hr
    obtain ⟨huser, hdrawn, l, hl, token', ht, hh⟩ := H.origin id rt₀ h₀
    rw [← husers] at huser
    refine ⟨by simpa using huser, by simpa using hdrawn, ?_⟩
    exact ⟨_, List.mem_map_of_mem hl, token', ht, by simpa using hh⟩
  stored l' hl' token' ht' := by
    obtain ⟨l, hl, rfl⟩ := List.mem_map.mp hl'
    obtain ⟨id, rt, hr, hh, hiff⟩ := H.stored l hl token' ht'
    refine ⟨id, rt.revokedBy (hashToken E token), by rw [htable, hr]; rfl, by simpa using hh, ?_⟩
    by_cases heq : token' = token
    · rw [RefreshToken.revokedBy_self (heq ▸ hh)]
      constructor
      · exact (absurd · Bool.false_ne_true.symm)
      · rintro ⟨hlast, hout⟩
        have hlast' : l.last = token := hlast.trans heq
        rw [Lineage.logout, hlast'] at hout
        simp at hout
    · have hne : rt.tokenHash ≠ hashToken E token := fun he => heq (hinj (hh.symm.trans he))
      rw [RefreshToken.revokedBy_of_ne hne, hiff]
      constructor
      · rintro ⟨hlast, hout⟩
        have hne' : l.last ≠ token := hlast ▸ heq
        exact ⟨hlast, by simp [Lineage.logout, hout, hne']⟩
      · rintro ⟨hlast, hout⟩
        exact ⟨hlast, (Bool.or_eq_false_iff.mp hout).1⟩
  apart i j l₁ l₂ token' h₁ h₂ ht₁ ht₂ := by
    rw [List.getElem?_map] at h₁ h₂
    obtain ⟨l₁', h₁', rfl⟩ := Option.map_eq_some_iff.mp h₁
    obtain ⟨l₂', h₂', rfl⟩ := Option.map_eq_some_iff.mp h₂
    exact H.apart i j l₁' l₂' token' h₁' h₂' ht₁ ht₂

/-- The row of a token that is not stored is inserted. -/
theorem grow (H : LineageInv E db ls drawn) {draws : Draws} {now : Time} {u : Uuid}
    (hg : Grows (issuedPair E now u draws).refreshToken ls ls')
    (htable : db'.refreshTokens = db.refreshTokens.insert draws.tokenId (issuedRow E now u draws))
    (hfresh : db.refreshTokens.contains draws.tokenId = false)
    (hunused : ∀ id rt, db.refreshTokens.get? id = some rt →
      rt.tokenHash ≠ (issuedRow E now u draws).tokenHash)
    (huser : db'.users.contains u = true)
    (husers : ∀ v, db.users.contains v = true → db'.users.contains v = true) :
    LineageInv E db' ls' (draws :: drawn) := by
  have hnew : db'.refreshTokens.get? draws.tokenId = some (issuedRow E now u draws) := by
    rw [htable, Table.get?_insert_self hfresh]
  have hold : ∀ l ∈ ls, (issuedPair E now u draws).refreshToken ∉ l.tokens := by
    intro l hl hx
    obtain ⟨id, rt, hr, hh, _⟩ := H.stored l hl _ hx
    exact hunused id rt hr hh
  obtain ⟨i₀, hat⟩ := hg.getElem?
  refine ⟨?_, fun id rt hr => ?_, fun l' hl' x hx => ?_, hg.apart hold H.apart⟩
  · rw [htable]
    exact H.unique.insert hfresh hunused
  · rw [htable] at hr
    rcases Table.get?_of_insert hr with hr | ⟨rfl, rfl⟩
    · obtain ⟨hu, ⟨d, hd, hdraws⟩, l, hl, x, hx, hh⟩ := H.origin id rt hr
      obtain ⟨l', hl', hsub⟩ := hg.subset hl
      exact ⟨husers _ hu, ⟨d, List.mem_cons_of_mem _ hd, hdraws⟩, l', hl', x, hsub hx, hh⟩
    · obtain ⟨l', hl', hx⟩ := hg.joined
      exact ⟨huser, ⟨draws, List.mem_cons_self, rfl, now, rfl⟩, l', hl', _, hx, rfl⟩
  · have hkeep {id : Uuid} {rt : RefreshToken} (hr : db.refreshTokens.get? id = some rt) :
        db'.refreshTokens.get? id = some rt := by
      rw [htable]
      exact Table.get?_insert_of_some hr ..
    obtain ⟨i, hi⟩ := List.mem_iff_getElem?.mp hl'
    rcases hat i l' hi with hi | ⟨_, hlast, hout, hearlier⟩
    · obtain ⟨id, rt, hr, hh⟩ := H.stored l' (List.mem_of_getElem? hi) x hx
      exact ⟨id, rt, hkeep hr, hh⟩
    · rcases List.mem_cons.mp hx with rfl | hx
      · exact ⟨_, _, hnew, by rw [hlast]; rfl, by simp [issuedRow, hout]⟩
      · obtain ⟨l, hl, hlout, hxl⟩ := hearlier x hx
        have hl := List.mem_of_getElem? hl
        obtain ⟨id, rt, hr, hh, hiff⟩ := H.stored l hl x hxl
        refine ⟨id, rt, hkeep hr, hh, fun hrev => ?_, fun h => ?_⟩
        · have hout' := (hiff.mp hrev).2
          rw [hlout] at hout'
          cases hout'
        · exact absurd (h.1.symm.trans hlast ▸ hxl) (hold l hl)

/-- The lineage of the presented token is the only one that goes on. -/
theorem extendWith_eq_set (H : LineageInv E db ls drawn) {i : Nat} {l : Lineage} {x : String}
    (hl : ls[i]? = some l) (hx : x ∈ l.tokens) :
    SessionHistory.extendWith x token ls = ls.set i (l.extend token) := by
  refine List.ext_getElem? fun j => ?_
  rw [SessionHistory.extendWith, List.getElem?_map, List.getElem?_set]
  split
  · rename_i heq
    rw [← heq, hl, if_pos (List.getElem?_eq_some_iff.mp hl).1, Option.map_some, if_pos hx]
  · rename_i hne
    cases hj : ls[j]? with
    | none => rfl
    | some l' =>
      have hx' : x ∉ l'.tokens := fun hx' => hne (H.apart i j l l' x hl hj hx hx')
      rw [Option.map_some, if_neg hx']

end LineageInv

/-! ## Requests -/

namespace SessionHistory

theorem extendWith_logout (x token : String) (ls : List Lineage) :
    extendWith x token (ls.map (Lineage.logout x)) = extendWith x token ls := by
  rw [extendWith, extendWith, List.map_map]
  refine List.map_congr_left fun l _ => ?_
  by_cases hx : x ∈ l.tokens
  · show (if x ∈ l.tokens then l.extend token else _) = _
    rw [if_pos hx, if_pos hx]
  · have hlast : l.last ≠ x := fun h => hx (h ▸ List.mem_cons_self)
    have hsame : l.logout x = l := by simp [Lineage.logout, hlast]
    rw [Function.comp_apply, hsame]

def Inv (E : Env) (h : SessionHistory) : Prop := LineageInv E h.world.db h.lineages h.drawn

/-- The token is the last one of its lineage, was not logged out, and is not expired. -/
def Current (E : Env) (h : SessionHistory) (token : String) : Prop :=
  ∃ l ∈ h.lineages, l.last = token ∧ l.Alive E h.world

variable {E : Env} {h : SessionHistory} {token : String} {draws : Draws}

theorem Inv.current (H : h.Inv E) (hinj : Function.Injective E.crypto.sha256) {id : Uuid}
    {rt : RefreshToken} (hrow : h.world.db.refreshTokens.get? id = some rt)
    (hhash : rt.tokenHash = hashToken E token) (hvalid : rt.isValid h.world.now = true) :
    h.Current E token := by
  rw [RefreshToken.isValid, Bool.and_eq_true, Bool.not_eq_true', Bool.not_eq_true',
    RefreshToken.isExpired, decide_eq_false_iff_not, Int.not_le] at hvalid
  obtain ⟨l, hl, hlast, hout⟩ := LineageInv.current H hinj hrow hhash hvalid.1
  exact ⟨l, hl, hlast, hout, id, rt, hrow, hlast ▸ hhash, hvalid.2⟩

/-- Only a current token is exchanged. -/
theorem Inv.current_of_refresh (H : h.Inv E) (hinj : Function.Injective E.crypto.sha256)
    (hs : (serve E (.auth (.refresh ⟨token⟩) draws) h.world).1.status = 200) :
    h.Current E token := by
  obtain ⟨id, rt, hrow, hhash, hvalid, _⟩ := (refresh_outcome H.unique ⟨token⟩).of_accepted hs
  exact H.current hinj hrow hhash hvalid

/-- The row of a current token. -/
theorem Inv.row_of_current (H : h.Inv E) (hc : h.Current E token) :
    ∃ id rt, h.world.db.refreshTokens.get? id = some rt ∧ rt.tokenHash = hashToken E token ∧
      rt.isValid h.world.now = true := by
  obtain ⟨l, hl, rfl, hout, id, rt, hrow, hhash, hexp⟩ := hc
  obtain ⟨id', rt', hrow', hhash', hiff⟩ := H.stored l hl l.last List.mem_cons_self
  cases H.unique _ _ _ _ hrow' hrow (hhash'.trans hhash.symm)
  cases hrow'.symm.trans hrow
  have hrev : rt.revoked = false := hiff.mpr ⟨rfl, hout⟩
  refine ⟨id, rt, hrow, hhash, ?_⟩
  rw [RefreshToken.isValid, hrev, RefreshToken.isExpired, decide_eq_false (Int.not_le.mpr hexp)]
  rfl

/-- Values that were not drawn before lead to no conflict. -/
theorem Inv.no_conflict (H : h.Inv E) (hinj : Function.Injective E.crypto.sha256)
    (hjwt : E.crypto.Jwt) (hf : h.Fresh draws) {base : Table Uuid RefreshToken}
    (hbase : Revokes (hashToken E token) h.world.db.refreshTokens base) {id : Uuid}
    {rt : RefreshToken} (hrow : h.world.db.refreshTokens.get? id = some rt) :
    base.contains draws.tokenId = false ∧
      (∀ id' rt', base.get? id' = some rt' →
        rt'.tokenHash ≠ (issuedRow E h.world.now rt.userId draws).tokenHash) ∧
      h.world.db.users.contains rt.userId = true := by
  refine ⟨Bool.eq_false_iff.mpr fun hc => ?_, fun id' rt' hr' he => ?_, (H.origin id rt hrow).user⟩
  · obtain ⟨rt', hr'⟩ := Table.contains_iff.mp hc
    rw [hbase] at hr'
    obtain ⟨rt₀, h₀, _⟩ := Option.map_eq_some_iff.mp hr'
    obtain ⟨d, hd, hid, _⟩ := (H.origin _ _ h₀).drawn
    exact absurd hid (hf d hd).1
  · rw [hbase] at hr'
    obtain ⟨rt₀, h₀, rfl⟩ := Option.map_eq_some_iff.mp hr'
    obtain ⟨d, hd, _, now, hh⟩ := (H.origin _ _ h₀).drawn
    rw [RefreshToken.revokedBy_tokenHash, hh] at he
    exact absurd (hjwt.encode _ _ (hinj he)).2.2 (hf d hd).2

theorem Inv.refresh_of_current (H : h.Inv E) (hinj : Function.Injective E.crypto.sha256)
    (hjwt : E.crypto.Jwt) (hf : h.Fresh draws) (hc : h.Current E token) :
    (serve E (.auth (.refresh ⟨token⟩) draws) h.world).1.status = 200 := by
  obtain ⟨id, rt, hrow, hhash, hvalid⟩ := H.row_of_current hc
  have ho : RefreshOutcome E h.world token draws _ _ := refresh_outcome H.unique ⟨token⟩
  generalize serve E (.auth (.refresh ⟨token⟩) draws) h.world = r at ho
  obtain ⟨response, w'⟩ := r
  cases ho with
  | rejected hnone => exact nomatch (hnone id rt hrow hhash).symm.trans hvalid
  | collided id' rt' base hrow' hbase hv =>
    exact absurd (H.no_conflict hinj hjwt hf hbase hrow') hv
  | rotated => rfl

/-- The routes that start a lineage. -/
def startsLineage : AuthRoute → Bool
  | .register _ | .login _ | .verifyOtp _ => true
  | _ => false

theorem record_of_none {route : AuthRoute} {response : Response} {ls : List Lineage}
    (hr : ∀ body, route ≠ .logout body) (h : response.tokens = none) :
    record route response ls = ls := by
  cases route with
  | logout body => exact absurd rfl (hr body)
  | _ => simp only [record, h]

theorem record_of_some {route : AuthRoute} {response : Response} {ls : List Lineage}
    {pair : TokenResponse} (hr : startsLineage route = true) (h : response.tokens = some pair) :
    record route response ls = ls ++ [.start pair.refreshToken] := by
  cases route with
  | register | login | verifyOtp => simp only [record, h]
  | _ => cases hr

/-- A sign-in starts a lineage, or changes nothing. -/
theorem Inv.signIn (H : h.Inv E) {route : AuthRoute} {response : Response} {w' : World}
    (hr : startsLineage route = true) (ho : SignIn E h.world draws response w') :
    LineageInv E w'.db (record route response h.lineages) (draws :: h.drawn) := by
  obtain ho | ⟨u, ho⟩ := ho
  · rw [record_of_none (fun body hb => by rw [hb] at hr; cases hr) ho.tokens]
    exact LineageInv.mono H ho.table (fun v hv => ho.users ▸ hv) (List.subset_cons_self ..)
  · rw [record_of_some hr ho.tokens]
    exact LineageInv.grow H .started ho.table ho.fresh ho.unused ho.user ho.users

theorem Inv.refresh (H : h.Inv E) (hinj : Function.Injective E.crypto.sha256) {response : Response}
    {w' : World} (ho : RefreshOutcome E h.world token draws response w') :
    LineageInv E w'.db (record (.refresh ⟨token⟩) response h.lineages) (draws :: h.drawn) := by
  cases ho with
  | rejected | collided => exact LineageInv.mono H rfl (fun _ h => h) (List.subset_cons_self ..)
  | rotated id rt base hrow hhash hvalid hbase hissued =>
    obtain ⟨l, hl, hlast, hout, _⟩ := H.current hinj hrow hhash hvalid
    obtain ⟨i, hi⟩ := List.mem_iff_getElem?.mp hl
    have Hout : LineageInv E { h.world.db with refreshTokens := base }
        (h.lineages.map (Lineage.logout token)) h.drawn :=
      LineageInv.logout H hinj hbase rfl
    have hi' : (h.lineages.map (Lineage.logout token))[i]? = some (l.logout token) := by
      rw [List.getElem?_map, hi]
      rfl
    have hx : token ∈ (l.logout token).tokens := hlast ▸ List.mem_cons_self
    show LineageInv E w'.db (extendWith token _ h.lineages) (draws :: h.drawn)
    rw [← extendWith_logout, Hout.extendWith_eq_set hi' hx]
    have hg : Grows (issuedPair E h.world.now rt.userId draws).refreshToken _ _ :=
      Grows.extended hi' (by simp [Lineage.logout, hlast])
    exact Hout.grow hg hissued.table hissued.fresh hissued.unused hissued.user hissued.users

end SessionHistory

theorem SessionEvent.apply_inv {E : Env} {h : SessionHistory} (H : h.Inv E)
    (hinj : Function.Injective E.crypto.sha256) (e : SessionEvent) : (e.apply E h).Inv E := by
  cases e with
  | tick dt => exact H
  | request route draws =>
    cases route with
    | register body => exact H.signIn rfl (register_outcome body).signIn
    | login body => exact H.signIn rfl (login_outcome body).signIn
    | verifyOtp body => exact H.signIn rfl (verifyOtp_outcome body).signIn
    | requestOtp body =>
      have ho : NoPair h.world (serve E (.auth (.requestOtp body) draws) h.world).1 _ :=
        requestOtp_outcome body
      have hrecord : SessionHistory.record (.requestOtp body)
          (serve E (.auth (.requestOtp body) draws) h.world).1 h.lineages = h.lineages :=
        SessionHistory.record_of_none nofun ho.tokens
      show LineageInv E _ (SessionHistory.record _ _ _) h.drawn
      rw [hrecord]
      exact LineageInv.mono H ho.table (fun v hv => ho.users ▸ hv) (List.Subset.refl _)
    | refresh body => exact H.refresh hinj (refresh_outcome H.unique body)
    | logout body =>
      have ho : LogoutOutcome E h.world body.refreshToken
          (serve E (.auth (.logout body) draws) h.world).1 _ := logout_outcome H.unique body
      exact LineageInv.logout H hinj ho.table ho.users

/-! ## Lineages that can go on -/

/-- Rows stay, up to their revocation. -/
def RowsKept (before after : Table Uuid RefreshToken) : Prop :=
  ∀ id rt, before.get? id = some rt → ∃ rt', after.get? id = some rt' ∧
    rt'.tokenHash = rt.tokenHash ∧ rt'.expiresAt = rt.expiresAt

namespace RowsKept

variable {tokens after : Table Uuid RefreshToken}

theorem of_eq (h : after = tokens) : RowsKept tokens after :=
  fun _ rt hr => ⟨rt, h ▸ hr, rfl, rfl⟩

theorem of_revokes {hash : String} (h : Revokes hash tokens after) : RowsKept tokens after := by
  intro id rt hr
  exact ⟨rt.revokedBy hash, by rw [h, hr]; rfl, by simp, by simp⟩

theorem insert {base : Table Uuid RefreshToken} (h : RowsKept tokens base) (id : Uuid)
    (rt : RefreshToken) : RowsKept tokens (base.insert id rt) := by
  intro id' rt' hr
  obtain ⟨rt'', hr', hh⟩ := h id' rt' hr
  exact ⟨rt'', Table.get?_insert_of_some hr' .., hh⟩

end RowsKept

namespace SessionHistory

variable {E : Env} {h h' : SessionHistory} {l l' : Lineage} {token : String}

/-- A lineage whose last token stays the last one was alive before. -/
theorem Inv.alive_of_kept (H : h.Inv E) (H' : h'.Inv E) (hl : l ∈ h.lineages)
    (hkeep : RowsKept h.world.db.refreshTokens h'.world.db.refreshTokens)
    (hnow : h.world.now ≤ h'.world.now) (hlast : l'.last = l.last)
    (hout : l'.loggedOut = false → l.loggedOut = false) (ha : l'.Alive E h'.world) :
    l.Alive E h.world := by
  obtain ⟨hout', id', rt', hrow', hhash', hexp'⟩ := ha
  obtain ⟨id, rt, hrow, hhash, _⟩ := H.stored l hl l.last List.mem_cons_self
  obtain ⟨rt'', hrow'', hhash'', hexp''⟩ := hkeep id rt hrow
  rw [hlast] at hhash'
  cases H'.unique _ _ _ _ hrow' hrow'' (hhash'.trans (hhash''.trans hhash).symm)
  cases hrow'.symm.trans hrow''
  rw [hexp''] at hexp'
  exact ⟨hout hout', _, rt, hrow, hhash, lt_of_le_of_lt hnow hexp'⟩

/-- The lineage of a token is the only one with it. -/
theorem Inv.alive_of_mem (H : h.Inv E) (hl : l ∈ h.lineages) (ht : token ∈ l.tokens)
    (hc : h.Current E token) : l.last = token ∧ l.Alive E h.world := by
  obtain ⟨l', hl', rfl, ha⟩ := hc
  obtain ⟨i, hi⟩ := List.mem_iff_getElem?.mp hl
  obtain ⟨j, hj⟩ := List.mem_iff_getElem?.mp hl'
  cases H.apart i j l l' l'.last hi hj ht List.mem_cons_self
  cases hi.symm.trans hj
  exact ⟨rfl, ha⟩

end SessionHistory

namespace SessionEvent

variable {E : Env} {h : SessionHistory} {l l' : Lineage} {i : Nat}

open SessionHistory

theorem alive_of_signIn {route : AuthRoute} {draws : Draws} (H : h.Inv E)
    (H' : ((request route draws).apply E h).Inv E) (hr : startsLineage route = true)
    (ho : SignIn E h.world draws (serve E (.auth route draws) h.world).1
      (serve E (.auth route draws) h.world).2) (hl : h.lineages[i]? = some l)
    (hl' : ((request route draws).apply E h).lineages[i]? = some l')
    (ha : l'.Alive E ((request route draws).apply E h).world) : l.Alive E h.world := by
  have hsame : l' = l := by
    have hrecord :
        (record route (serve E (.auth route draws) h.world).1 h.lineages)[i]? = some l := by
      obtain ho | ⟨u, ho⟩ := ho
      · rw [record_of_none (fun body hb => by rw [hb] at hr; cases hr) ho.tokens, hl]
      · rw [record_of_some hr ho.tokens,
          List.getElem?_append_left (List.getElem?_eq_some_iff.mp hl).1, hl]
    exact Option.some.inj (hl'.symm.trans hrecord)
  have hkeep : RowsKept h.world.db.refreshTokens
      ((request route draws).apply E h).world.db.refreshTokens := by
    obtain ho | ⟨u, ho⟩ := ho
    · exact .of_eq ho.table
    · exact ho.table ▸ (RowsKept.of_eq rfl).insert _ _
  have hnow : ((request route draws).apply E h).world.now = h.world.now := by
    obtain ho | ⟨u, ho⟩ := ho
    · exact ho.now
    · exact ho.now
  exact H.alive_of_kept H' (List.mem_of_getElem? hl) hkeep (Int.le_of_eq hnow.symm) (hsame ▸ rfl)
    (fun h => hsame ▸ h) ha

theorem alive_of_refresh (H : h.Inv E) (hinj : Function.Injective E.crypto.sha256) {token : String}
    {draws : Draws} {response : Response} {w' : World}
    (ho : RefreshOutcome E h.world token draws response w') (hl : h.lineages[i]? = some l)
    (hl' : (record (.refresh ⟨token⟩) response h.lineages)[i]? = some l') (ha : l'.Alive E w') :
    l.Alive E h.world := by
  have hmem := List.mem_of_getElem? hl
  have H' : SessionHistory.Inv E
      ⟨w', record (.refresh ⟨token⟩) response h.lineages, draws :: h.drawn⟩ := H.refresh hinj ho
  cases ho with
  | rejected | collided =>
    cases hl.symm.trans hl'
    exact ha
  | rotated id rt base hrow hhash hvalid hbase hissued =>
    by_cases ht : token ∈ l.tokens
    · exact (H.alive_of_mem hmem ht (H.current hinj hrow hhash hvalid)).2
    · have hl'' : (record (.refresh ⟨token⟩)
          ⟨200, .tokens (issuedPair E h.world.now rt.userId draws), []⟩ h.lineages)[i]? =
            some l := by
        show (extendWith token _ h.lineages)[i]? = some l
        rw [extendWith, List.getElem?_map, hl, Option.map_some, if_neg ht]
      cases hl''.symm.trans hl'
      have hkeep : RowsKept h.world.db.refreshTokens w'.db.refreshTokens :=
        hissued.table ▸ (RowsKept.of_revokes hbase).insert _ _
      exact H.alive_of_kept H' hmem hkeep (Int.le_of_eq hissued.now.symm) rfl (fun h => h) ha

/-- **A dead lineage stays dead**: what is alive after a step was alive before it. -/
theorem alive_of_apply (H : h.Inv E) (hinj : Function.Injective E.crypto.sha256) (e : SessionEvent)
    (hl : h.lineages[i]? = some l) (hl' : (e.apply E h).lineages[i]? = some l')
    (ha : l'.Alive E (e.apply E h).world) : l.Alive E h.world := by
  have H' := apply_inv H hinj e
  have hmem := List.mem_of_getElem? hl
  cases e with
  | tick dt =>
    cases hl.symm.trans hl'
    have hnow : h.world.now ≤ h.world.now + dt := Int.le_add_of_nonneg_right (Int.natCast_nonneg dt)
    exact H.alive_of_kept H' hmem (.of_eq rfl) hnow rfl id ha
  | request route draws =>
    cases route with
    | register body => exact alive_of_signIn H H' rfl (register_outcome body).signIn hl hl' ha
    | login body => exact alive_of_signIn H H' rfl (login_outcome body).signIn hl hl' ha
    | verifyOtp body => exact alive_of_signIn H H' rfl (verifyOtp_outcome body).signIn hl hl' ha
    | requestOtp body =>
      have ho : NoPair h.world (serve E (.auth (.requestOtp body) draws) h.world).1 _ :=
        requestOtp_outcome body
      have hrecord : SessionHistory.record (.requestOtp body)
          (serve E (.auth (.requestOtp body) draws) h.world).1 h.lineages = h.lineages :=
        record_of_none nofun ho.tokens
      have hsame : l' = l := Option.some.inj (hl'.symm.trans ((congrArg (·[i]?) hrecord).trans hl))
      exact H.alive_of_kept H' hmem (.of_eq ho.table) (Int.le_of_eq ho.now.symm) (hsame ▸ rfl)
        (fun h => hsame ▸ h) ha
    | logout body =>
      have ho : LogoutOutcome E h.world body.refreshToken
          (serve E (.auth (.logout body) draws) h.world).1 _ := logout_outcome H.unique body
      have hl'' : (h.lineages.map (Lineage.logout body.refreshToken))[i]? =
          some (l.logout body.refreshToken) := by
        rw [List.getElem?_map, hl]
        rfl
      cases hl''.symm.trans hl'
      have hout (ho : (l.logout body.refreshToken).loggedOut = false) : l.loggedOut = false :=
        (Bool.or_eq_false_iff.mp ho).1
      have hlast : (l.logout body.refreshToken).last = l.last := rfl
      exact H.alive_of_kept H' hmem (.of_revokes ho.table) (Int.le_of_eq ho.now.symm) hlast hout ha
    | refresh body =>
      exact alive_of_refresh H hinj (refresh_outcome H.unique body) hl hl' ha

end SessionEvent

namespace SessionHistory

variable {E : Env} {h h' : SessionHistory} {w₀ : World} {l l' : Lineage} {i : Nat} {token : String}

theorem exists_fresh (h : SessionHistory) : ∃ draws, h.Fresh draws := by
  obtain ⟨n, hn⟩ := Infinite.exists_notMem_finset
    (h.drawn.map Draws.tokenId ++ h.drawn.map Draws.refreshJti).toFinset
  rw [List.mem_toFinset, List.mem_append, not_or] at hn
  refine ⟨⟨0, n, 0, n, "", 0, 0, 0, fun _ => 0⟩, fun d hd => ⟨fun he => ?_, fun he => ?_⟩⟩
  · exact hn.1 (List.mem_map.mpr ⟨d, hd, he⟩)
  · exact hn.2 (List.mem_map.mpr ⟨d, hd, he⟩)

theorem run_inv (hinj : Function.Injective E.crypto.sha256) (h₀ : w₀.db.refreshTokens = .empty)
    (H : Reach (SessionEvent.apply E) SessionEvent.Allowed ⟨w₀, [], []⟩ h) : h.Inv E :=
  H.invariant (P := Inv E) (.empty h₀) fun _ e hi _ => e.apply_inv hi hinj

theorem Inv.current_of_redeemable (H : h.Inv E) (hinj : Function.Injective E.crypto.sha256)
    (hr : Redeemable E h.world token) : h.Current E token := by
  obtain ⟨draws, hs⟩ := hr
  exact H.current_of_refresh hinj hs

/-- The only token of a lineage that can be exchanged is its last one, while it is alive. -/
theorem Inv.redeemable_iff (H : h.Inv E) (hinj : Function.Injective E.crypto.sha256)
    (hjwt : E.crypto.Jwt) (hl : l ∈ h.lineages) (ht : token ∈ l.tokens) :
    Redeemable E h.world token ↔ l.last = token ∧ l.Alive E h.world := by
  constructor
  · intro hr
    exact H.alive_of_mem hl ht (H.current_of_redeemable hinj hr)
  · rintro ⟨hlast, ha⟩
    obtain ⟨draws, hf⟩ := h.exists_fresh
    exact ⟨draws, H.refresh_of_current hinj hjwt hf ⟨l, hl, hlast, ha⟩⟩

theorem length_le_record (route : AuthRoute) (response : Response) (ls : List Lineage) :
    ls.length ≤ (record route response ls).length := by
  rw [record.eq_def]
  split
  · rw [List.length_map]
  · rw [extendWith, List.length_map]
  · rw [List.length_append]
    omega
  · exact Nat.le_refl _

theorem length_le_apply (e : SessionEvent) (h : SessionHistory) :
    h.lineages.length ≤ (e.apply E h).lineages.length := by
  cases e with
  | tick dt => exact Nat.le_refl _
  | request route draws => exact length_le_record ..

/-- A lineage that was dead at some time is dead from then on. -/
theorem Inv.dead_of_reach (H : h.Inv E) (hinj : Function.Injective E.crypto.sha256)
    (hl : h.lineages[i]? = some l) (hdead : ¬ l.Alive E h.world)
    (Hrun : Reach (SessionEvent.apply E) SessionEvent.Allowed h h')
    (hl' : h'.lineages[i]? = some l') : h'.Inv E ∧ ¬ l'.Alive E h'.world := by
  have hrun : h'.Inv E ∧ ∃ l', h'.lineages[i]? = some l' ∧ ¬ l'.Alive E h'.world := by
    refine Hrun.invariant (P := fun h' => h'.Inv E ∧ ∃ l', h'.lineages[i]? = some l' ∧
      ¬ l'.Alive E h'.world) ⟨H, l, hl, hdead⟩ fun h₁ e ih _ => ?_
    obtain ⟨H₁, l₁, hl₁, hdead₁⟩ := ih
    have hlt : i < (e.apply E h₁).lineages.length :=
      Nat.lt_of_lt_of_le (List.getElem?_eq_some_iff.mp hl₁).1 (length_le_apply e h₁)
    obtain ⟨l₂, hl₂⟩ : ∃ l₂, (e.apply E h₁).lineages[i]? = some l₂ :=
      ⟨_, List.getElem?_eq_getElem hlt⟩
    exact ⟨e.apply_inv H₁ hinj, l₂, hl₂, fun ha => hdead₁ (e.alive_of_apply H₁ hinj hl₁ hl₂ ha)⟩
  obtain ⟨H', l'', hl'', hdead''⟩ := hrun
  cases hl''.symm.trans hl'
  exact ⟨H', hdead''⟩

end SessionHistory

/-! ## Runs -/

section
variable {E : Env} {h : SessionHistory} {w₀ w w' : World} {token : String} {draws : Draws}

/-- A refresh hands out a pair for the user of the presented token. -/
theorem SessionHistory.Inv.refresh_subject (H : h.Inv E) (hinj : Function.Injective E.crypto.sha256)
    (hs : (serve E (.auth (.refresh ⟨token⟩) draws) h.world).1.status = 200) :
    ∃ u pair, (serve E (.auth (.refresh ⟨token⟩) draws) h.world).1 = ⟨200, .tokens pair, []⟩ ∧
      ∀ t ∈ [token, pair.accessToken, pair.refreshToken], E.crypto.Subject u t := by
  obtain ⟨id, rt, hrow, hhash, _, hr⟩ := (refresh_outcome H.unique ⟨token⟩).of_accepted hs
  refine ⟨rt.userId, issuedPair E h.world.now rt.userId draws, hr, fun t ht => ?_⟩
  obtain ⟨d, _, _, now, hh⟩ := (H.origin id rt hrow).drawn
  have htoken : (issuedPair E now rt.userId d).refreshToken = token := hinj (hh.symm.trans hhash)
  simp only [List.mem_cons, List.not_mem_nil, or_false] at ht
  rcases ht with rfl | rfl | rfl
  · exact ⟨_, htoken, rfl⟩
  · exact ⟨_, rfl, rfl⟩
  · exact ⟨_, rfl, rfl⟩

/-- No row has the hash of an access token. -/
theorem SessionHistory.Inv.not_redeemable_access (H : h.Inv E)
    (hinj : Function.Injective E.crypto.sha256) (hjwt : E.crypto.Jwt) {p : Payload}
    (hp : p.type = .access) : ¬ Redeemable E h.world (E.crypto.jwtEncode p) := by
  intro hr
  obtain ⟨id, rt, hrow, hhash, _⟩ := H.row_of_current (H.current_of_redeemable hinj hr)
  obtain ⟨d, _, _, now, hh⟩ := (H.origin id rt hrow).drawn
  have htype := (hjwt.encode _ _ (hinj (hh.symm.trans hhash))).2.1
  rw [hp] at htype
  cases htype

/-- `get_current_user` turns a refresh token down. -/
theorem serve_refreshToken (hjwt : E.crypto.Jwt) {p : Payload} (hp : p.type = .refresh)
    (route : Route) :
    (serve E (.user (E.crypto.jwtEncode p) route draws) w).1 = credentialsException.response := by
  refine serve_ends (P := fun response _ => response = credentialsException.response) ?_
  refine getCurrentUser_ends rfl (fun _ _ => rfl) fun t u user _ hauth => ?_
  obtain ⟨payload, hdecode, htype, _⟩ := hauth
  have hsame := (hjwt.decode _ _ _ hdecode).2.1
  rw [hp, htype] at hsame
  cases hsame

/-- **Session lineages.** In every run of the authentication routes from an empty table of refresh
tokens, in which no uuid is drawn twice: a refresh succeeds iff its token is the last one of its
lineage, was not logged out and is not expired, and the new pair is for the same user. So a lineage
has at most one token that can be exchanged, and if it has none it never has one again. An access
token is never accepted by refresh, nor a refresh token by `get_current_user`. -/
theorem session_lineages (hinj : Function.Injective E.crypto.sha256) (hjwt : E.crypto.Jwt)
    (h₀ : w₀.db.refreshTokens = .empty)
    (H : Reach (SessionEvent.apply E) SessionEvent.Allowed ⟨w₀, [], []⟩ h) :
    (∀ token draws, h.Fresh draws →
      let r := serve E (.auth (.refresh ⟨token⟩) draws) h.world
      (r.1.status = 200 ↔ h.Current E token) ∧
      (r.1.status = 200 → ∃ u pair, r.1 = ⟨200, .tokens pair, []⟩ ∧
        ∀ t ∈ [token, pair.accessToken, pair.refreshToken], E.crypto.Subject u t)) ∧
    (∀ l ∈ h.lineages, ∀ t ∈ l.tokens, ∀ t' ∈ l.tokens,
      Redeemable E h.world t → Redeemable E h.world t' → t = t') ∧
    (∀ (i : Nat) l h' l', h.lineages[i]? = some l →
      (∀ t ∈ l.tokens, ¬ Redeemable E h.world t) →
      Reach (SessionEvent.apply E) SessionEvent.Allowed h h' → h'.lineages[i]? = some l' →
      ∀ t ∈ l'.tokens, ¬ Redeemable E h'.world t) ∧
    (∀ p, p.type = .access → ¬ Redeemable E h.world (E.crypto.jwtEncode p)) ∧
    ∀ p route draws, p.type = .refresh →
      (serve E (.user (E.crypto.jwtEncode p) route draws) h.world).1 =
        credentialsException.response := by
  have hi := SessionHistory.run_inv hinj h₀ H
  refine ⟨fun token draws hf => ⟨⟨hi.current_of_refresh hinj, hi.refresh_of_current hinj hjwt hf⟩,
    hi.refresh_subject hinj⟩, fun l hl t ht t' ht' hr hr' => ?_,
    fun i l h' l' hl hdead Hrun hl' => ?_,
    fun p hp => hi.not_redeemable_access hinj hjwt hp,
    fun p route draws hp => serve_refreshToken hjwt hp route⟩
  · have hlast := ((hi.redeemable_iff hinj hjwt hl ht).mp hr).1
    have hlast' := ((hi.redeemable_iff hinj hjwt hl ht').mp hr').1
    exact hlast.symm.trans hlast'
  · have hnot : ¬ l.Alive E h.world := fun ha =>
      hdead l.last List.mem_cons_self
        ((hi.redeemable_iff hinj hjwt (List.mem_of_getElem? hl) List.mem_cons_self).mpr ⟨rfl, ha⟩)
    obtain ⟨hi', hnot'⟩ := hi.dead_of_reach hinj hl hnot Hrun hl'
    intro t ht hr
    exact hnot' ((hi'.redeemable_iff hinj hjwt (List.mem_of_getElem? hl') ht).mp hr).2

end

/-! ## A login that is refreshed -/

namespace Sample

theorem takeWhile_replicate (n : Nat) (cs : List Char) :
    (List.replicate n '|' ++ '.' :: cs).takeWhile (· = '|') = List.replicate n '|' := by
  rw [List.takeWhile_append_of_pos fun c hc => by simp [List.eq_of_mem_replicate hc]]
  simp

theorem dropWhile_replicate (n : Nat) (cs : List Char) :
    (List.replicate n '|' ++ '.' :: cs).dropWhile (· = '|') = '.' :: cs := by
  rw [List.dropWhile_append_of_pos fun c hc => by simp [List.eq_of_mem_replicate hc]]
  simp

theorem jwtDecode_jwtEncode (now : Time) (p : Payload) :
    jwtDecode now (jwtEncode p) = some ⟨p.sub, p.type, now + 1, now, p.jti⟩ := by
  rw [jwtDecode, jwtEncode]
  simp only [String.toList_ofList, takeWhile_replicate, dropWhile_replicate]
  cases p.type <;> simp

theorem jwt : crypto.Jwt where
  encode p q h := by
    have hd := (jwtDecode_jwtEncode 0 p).symm.trans
      ((congrArg (jwtDecode 0) h).trans (jwtDecode_jwtEncode 0 q))
    cases p
    cases q
    simpa using hd
  decode now p q h := by
    cases (jwtDecode_jwtEncode now p).symm.trans h
    exact ⟨rfl, rfl, rfl⟩

/-- Alice logs in. -/
def aliceLogin : SessionEvent := .request (.login ⟨"alice@rawbin.io", "password"⟩) (draws 0)

end Sample

/-- Her refresh token can be exchanged, so it is the last one of its lineage. -/
theorem aliceLogin_current :
    (Sample.aliceLogin.apply Sample.env ⟨Sample.world, [], []⟩).Current Sample.env
      (Sample.jwtEncode ⟨1, .refresh, 0, 0, 0⟩) := by
  have hinj : Function.Injective Sample.env.crypto.sha256 := fun _ _ h =>
    String.append_right_inj _ |>.mp h
  have H : Reach (SessionEvent.apply Sample.env) SessionEvent.Allowed ⟨Sample.world, [], []⟩
      (Sample.aliceLogin.apply Sample.env ⟨Sample.world, [], []⟩) :=
    Reach.refl.step (e := Sample.aliceLogin) fun _ d hd => absurd hd List.not_mem_nil
  have hfresh : (Sample.aliceLogin.apply Sample.env ⟨Sample.world, [], []⟩).Fresh
      (Sample.draws 1) := by
    intro d hd
    cases List.mem_singleton.mp hd
    decide
  refine ((session_lineages hinj Sample.jwt rfl H).1 _ (Sample.draws 1) hfresh).1.mp ?_
  decide +kernel

end Rawbin
