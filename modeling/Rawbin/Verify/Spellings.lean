import Rawbin.Verify.LowerCase
import Rawbin.Verify.Registered

/-!
# Spellings of an email

An email may be written in different cases and with white space around it. Registration and login
lower-case all of it before they look for the account; sharing a device lower-cases the domain only,
so it finds the account iff the part before the domain is already in lower case.
-/

namespace Rawbin

section
variable {C : Crypto} {isAddress : String → Bool}

theorem localPart_append_domainPart (s : String) : localPart s ++ domainPart s = s := by
  rw [localPart, domainPart, ← String.ofList_append, List.rdropWhile_append_rtakeWhile,
    String.ofList_toList]

/-- The text up to the last `@` ends with it, unless it is empty. -/
theorem rdropWhile_at (cs : List Char) :
    cs.rdropWhile (· ≠ '@') = [] ∨ ∃ front, cs.rdropWhile (· ≠ '@') = front ++ ['@'] := by
  by_cases hne : cs.rdropWhile (· ≠ '@') = []
  · exact .inl hne
  · have hlast := List.rdropWhile_last_not (· ≠ '@') cs hne
    have hat : (cs.rdropWhile (· ≠ '@')).getLast hne = '@' := by simpa using hlast
    have happend := List.dropLast_append_getLast hne
    rw [hat] at happend
    exact .inr ⟨_, happend.symm⟩

theorem Crypto.LowerCase.lowerFrom_append (hC : C.LowerCase) {xs ys : List Char}
    (h : xs = [] ∨ ∃ front, xs = front ++ ['@']) :
    lowerFrom C [] (xs ++ ys) = lowerFrom C [] xs ++ lowerFrom C [] ys := by
  rcases h with rfl | ⟨front, rfl⟩
  · rfl
  · rw [List.append_assoc, List.singleton_append, hC.lowerFrom_at, hC.lowerFrom_at,
      List.append_assoc]
    rfl

/-- The two parts can be lower-cased by themselves. -/
theorem Crypto.LowerCase.pyLower_parts (hC : C.LowerCase) (s : String) :
    pyLower C s = pyLower C (localPart s) ++ pyLower C (domainPart s) := by
  simp only [pyLower, localPart, domainPart, String.toList_ofList, ← String.ofList_append]
  rw [← hC.lowerFrom_append (rdropWhile_at s.toList), List.rdropWhile_append_rtakeWhile]

theorem Crypto.LowerCase.pyStrip_normaliseEmail (hC : C.LowerCase) (v : String) :
    pyStrip (normaliseEmail C v) = normaliseEmail C v := by
  have htrimmed : Trimmed isSpace (lowerFrom C [] (stripBy isSpace v.toList)) :=
    hC.trimmed (stripBy_trimmed isSpace v.toList)
  simp only [pyStrip, normaliseEmail, pyLower, String.toList_ofList, stripBy_of_trimmed htrimmed]

/-- The domain of a text that was lower-cased is in lower case. -/
theorem Crypto.LowerCase.pyLower_domainPart (hC : C.LowerCase) (v : String) :
    pyLower C (domainPart (normaliseEmail C v)) = domainPart (normaliseEmail C v) := by
  have hlower : ∀ c ∈ (normaliseEmail C v).toList.rtakeWhile (· ≠ '@'), LowerChar C c := by
    intro c hc
    have hmem := (List.rtakeWhile_suffix _ _).subset hc
    rw [normaliseEmail, pyLower, String.toList_ofList] at hmem
    exact hC.mem_lower hmem
  simp only [pyLower, domainPart, String.toList_ofList, lowerFrom_of_lower hlower]

/-- After the validator, nothing is left for `EmailStr` to change. -/
theorem Crypto.LowerCase.registerEmail (hC : C.LowerCase) (v : String) :
    registerEmail C isAddress v =
      if isAddress (normaliseEmail C v) then some (normaliseEmail C v) else none := by
  simp only [Rawbin.registerEmail, emailStr, hC.pyStrip_normaliseEmail, hC.pyLower_domainPart,
    localPart_append_domainPart]

/-- A share asks for the normal form iff the text is an address whose part before the domain is in
lower case. -/
theorem Crypto.LowerCase.shareEmail_iff (hC : C.LowerCase) (v : String) :
    shareEmail C isAddress v = some (normaliseEmail C v) ↔ isAddress (pyStrip v) = true ∧
      pyLower C (localPart (pyStrip v)) = localPart (pyStrip v) := by
  rw [shareEmail, emailStr, normaliseEmail, hC.pyLower_parts (pyStrip v)]
  by_cases ha : isAddress (pyStrip v) = true
  · simp only [ha, if_true, Option.some.injEq, String.append_left_inj, true_and, eq_comm]
  · simp only [ha, Bool.false_eq_true, if_false, reduceCtorEq, false_and]

end

/-! ## The three paths -/

section
variable {E : Env} {w : World} {draws : Draws} {u d caller : Uuid} {email hash credentials : String}
variable {callerRow : User} {device : Device}

theorem Db.Account.login (h : w.db.Account u email hash) (hnew : draws.New E w) {password : String}
    (hv : verifyPassword E.crypto password hash = .ok true) :
    (serve E (.auth (.login ⟨email, password⟩) draws) w).1 =
      ⟨200, .tokens (issuedPair E w.now u draws), []⟩ := by
  obtain ⟨user, hq, rfl, ha⟩ := h.userByEmail
  rw [login_answer _ fun _ => hnew, loginAnswer, hq]
  simp only [hv, ha, if_true]

theorem Db.Account.register (h : w.db.Account u email hash) (password displayName : String)
    (phone : Option String) :
    (serve E (.auth (.register ⟨email, password, displayName, phone⟩) draws) w).1.status = 409 := by
  refine serve_ends (P := fun response _ => response.status = 409) (select_ends rfl fun t _ => ?_)
  refine raiseIf_ends (fun _ => rfl) fun hempty => ?_
  obtain ⟨user, hu, he, _⟩ := h.row
  have hm : (u, user) ∈ (Query.usersByEmailOrPhone email (phone.filter (· ≠ ""))).eval w.db := by
    rw [Query.eval, Table.mem_select]
    exact ⟨hu, Bool.or_eq_true_iff.mpr (.inl (decide_eq_true he))⟩
  simp only [Bool.not_eq_true, Bool.not_eq_false', List.isEmpty_iff] at hempty
  rw [hempty] at hm
  cases hm

theorem Db.Account.share (h : w.db.Account u email hash)
    (hcaller : Authenticated E credentials caller callerRow w)
    (hmember : DeviceMember d caller device w) (draws : Draws) :
    let r := serve E (.user credentials (.shareDevice d ⟨email⟩) draws) w
    r.1.status = 200 ∧ r.2.db.userDevices.contains (u, d) = true := by
  obtain ⟨user, hq, _⟩ := h.userByEmail
  have hu : w.db.users.get? u = some user := (Table.mem_select.mp (List.mem_of_head? hq)).1
  refine serve_ends (P := fun response w' => response.status = 200 ∧
    w'.db.userDevices.contains (u, d) = true) ?_
  refine getCurrentUser_ends rfl (fun _ hnone => absurd hcaller (hnone _ _)) fun t v _ ht hv => ?_
  obtain ⟨rfl, _⟩ := hv.unique hcaller
  refine assertDeviceMember_ends ht (fun _ hnone => absurd hmember (hnone _)) fun t _ ht _ => ?_
  refine select_ends ht fun t ht => ?_
  rw [hq]
  simp only [Handler.bind_apply, Prog.pure_bind]
  refine addMember_insert (fun hm => query_ends ⟨rfl, hm⟩) (fun _ => query_ends ⟨rfl, ?_⟩)
    fun t' row e hm he => ?_
  · show (Session.view ⟨t.written ++ [_], _⟩ w.db).userDevices.contains (u, d) = true
    rw [Session.view_snoc, Write.apply, Table.contains_insert]
    exact .inr rfl
  · rw [Session.view_of_nil ht] at hm he
    cases he.symm.trans (Write.insertUserDevice_violates_iff.mpr
      ⟨hm, Table.contains_of_get? hu, Table.contains_of_get? hmember.1⟩)

/-- A lookup finds the account by its own email only. -/
theorem Db.Account.lookup_iff (h : w.db.Account u email hash) {email' : String} :
    ((Query.userByEmail email').eval w.db).map Prod.fst = some u ↔ email' = email := by
  constructor
  · intro hfound
    obtain ⟨⟨v, found⟩, hq, rfl⟩ := Option.map_eq_some_iff.mp hfound
    obtain ⟨user, hu, he, _⟩ := h.row
    obtain ⟨hv, he'⟩ := Table.mem_select.mp (List.mem_of_head? hq)
    cases hv.symm.trans hu
    exact (of_decide_eq_true he').symm.trans he
  · rintro rfl
    obtain ⟨user, hq, _⟩ := h.userByEmail
    rw [hq, Option.map_some]

/-- A request with the email of a body; without one the body does not reach the route. -/
def receive (E : Env) (email : Option String) (request : String → Request) (w : World) :
    Option Response × World :=
  match email with
  | none => (none, w)
  | some email =>
    let r := serve E (request email) w
    (some r.1, r.2)

/-- User `u` is identified by the spelling: a login with the right password is answered by tokens of
`u`, a registration by 409, and a share finds `u` and leaves `u` a member. -/
structure Identifies (E : Env) (isAddress : String → Bool) (spelling : String) (u : Uuid)
    (hash credentials : String) (d : Uuid) (draws : Draws) (w : World) : Prop where
  login : ∀ password draws, draws.New E w → verifyPassword E.crypto password hash = .ok true →
    (receive E (loginEmail E.crypto isAddress spelling)
      (fun email => .auth (.login ⟨email, password⟩) draws) w).1 =
      some ⟨200, .tokens (issuedPair E w.now u draws), []⟩
  register : ∀ password displayName phone draws,
    (receive E (registerEmail E.crypto isAddress spelling)
      (fun email => .auth (.register ⟨email, password, displayName, phone⟩) draws) w).1.map
        Response.status = some 409
  target : (shareEmail E.crypto isAddress spelling).bind (fun email =>
    ((Query.userByEmail email).eval w.db).map Prod.fst) = some u
  share :
    let r := receive E (shareEmail E.crypto isAddress spelling)
      (fun email => .user credentials (.shareDevice d ⟨email⟩) draws) w
    r.1.map Response.status = some 200 ∧ r.2.db.userDevices.contains (u, d) = true

/-- **Spellings.** After an email was registered, and anything was served since, a spelling that
differs in case or in the white space around it identifies the account on all three paths iff, as it
is written, it is an address whose part before the domain is in lower case. -/
theorem spelling_identifies (hC : E.crypto.LowerCase) {isAddress : String → Bool} {v v' : String}
    {body : UserRegisterRequest} {user : UserResponse} {w' : World} {draws' : Draws}
    (hemail : registerEmail E.crypto isAddress v = some body.email)
    (hregistered : (serve E (.auth (.register body) draws) w).1.registered = some user)
    (H : Reach (ServerEvent.apply E) (fun _ _ => True)
      (serve E (.auth (.register body) draws) w).2 w')
    (hspelling : pyLower E.crypto (pyStrip v') = pyLower E.crypto (pyStrip v))
    (hcaller : Authenticated E credentials caller callerRow w')
    (hmember : DeviceMember d caller device w') :
    ∃ hash, hashPassword E.crypto draws.bcryptSalt body.password = .ok hash ∧
      (Identifies E isAddress v' user.id hash credentials d draws' w' ↔
        isAddress (pyStrip v') = true ∧
          pyLower E.crypto (localPart (pyStrip v')) = localPart (pyStrip v')) := by
  obtain ⟨hash, hhash, haccount⟩ := register_created hregistered
  have h : w'.db.Account user.id body.email hash := reach_account haccount H
  have hnormal : normaliseEmail E.crypto v' = normaliseEmail E.crypto v := hspelling
  have hregister : registerEmail E.crypto isAddress v' = some body.email := by
    rw [registerEmail, hnormal]
    exact hemail
  have hbody : body.email = normaliseEmail E.crypto v' := by
    rw [hC.registerEmail, Option.ite_none_right_eq_some, Option.some_inj] at hregister
    exact hregister.2.symm
  refine ⟨hash, hhash, ?_⟩
  rw [← hC.shareEmail_iff, ← hbody]
  constructor
  · intro hid
    obtain ⟨email, hshare, hfound⟩ := Option.bind_eq_some_iff.mp hid.target
    rw [hshare, h.lookup_iff.mp hfound]
  · intro hshare
    refine ⟨fun password draws hnew hv => ?_, fun password displayName phone draws => ?_, ?_, ?_⟩
    · rw [show loginEmail E.crypto isAddress v' = some body.email from hregister]
      exact congrArg some (h.login hnew hv)
    · rw [hregister]
      exact congrArg some (h.register password displayName phone)
    · rw [hshare]
      exact h.lookup_iff.mpr rfl
    · rw [hshare]
      have hshared := h.share hcaller hmember draws'
      exact ⟨congrArg some hshared.1, hshared.2⟩

end

namespace Sample

theorem lowerCase : crypto.LowerCase where
  lower b c a hc d hd := by
    intro b' a'
    rw [List.mem_singleton.mp hd]
    exact if_neg (by rw [hc]; exact Bool.false_ne_true)
  ne_nil _ _ _ _ := List.cons_ne_nil _ _
  space b c a _ hs d hd := by rw [List.mem_singleton.mp hd]; exact hs
  before _ _ _ _ := rfl
  after _ _ _ _ := rfl

/-- There is a dot after the first `@`. -/
def isAddress (s : String) : Bool := (s.toList.dropWhile (· ≠ '@')).contains '.'

def carolAt : UserRegisterRequest := ⟨"carol@rawbin.io", "Sup3rSecure!", "Carol", none⟩

/-- Alice is the member of device 7, and Carol has registered. -/
def carolAtWorld : World := (serve env (.auth (.register carolAt) (draws 3)) deviceWorld).2

def aliceToken : String := jwtEncode ⟨1, .access, 0, 0, 0⟩

theorem carolAt_registered : (serve env (.auth (.register carolAt) (draws 3))
    deviceWorld).1.registered = some ⟨3, "carol@rawbin.io", none, "Carol", true, 0⟩ := by
  decide +kernel

theorem aliceToken_authenticated :
    Authenticated env aliceToken 1 (user "alice@rawbin.io") carolAtWorld :=
  ⟨_, rfl, rfl, rfl, by decide +kernel, rfl⟩

theorem device7_alice : DeviceMember 7 1 ⟨"uid", "f", "bin", false, none, 0⟩ carolAtWorld :=
  ⟨by decide +kernel, by decide +kernel⟩

end Sample

/-- White space and the case of the domain do not matter. -/
theorem carol_domainCase : ∃ hash, hashPassword Sample.crypto 0 "Sup3rSecure!" = .ok hash ∧
    Identifies Sample.env Sample.isAddress " carol@RawBin.IO " 3 hash Sample.aliceToken 7
      (Sample.draws 4)
      Sample.carolAtWorld := by
  have hemail : registerEmail Sample.env.crypto Sample.isAddress "carol@rawbin.io" =
      some Sample.carolAt.email := by decide +kernel
  have h : ∃ hash, hashPassword Sample.crypto 0 "Sup3rSecure!" = .ok hash ∧
      (Identifies Sample.env Sample.isAddress " carol@RawBin.IO " 3 hash Sample.aliceToken 7
        (Sample.draws 4) Sample.carolAtWorld ↔ _) :=
    spelling_identifies Sample.lowerCase hemail Sample.carolAt_registered Reach.refl
      (by decide +kernel) Sample.aliceToken_authenticated Sample.device7_alice
  obtain ⟨hash, hhash, hiff⟩ := h
  exact ⟨hash, hhash, hiff.mpr ⟨by decide +kernel, by decide +kernel⟩⟩

/-- The case of the rest does, for a share. -/
theorem carol_localCase : ¬ ∀ (E : Env) (isAddress : String → Bool) (v v' : String) (w w' : World)
      (body : UserRegisterRequest) (user : UserResponse) (draws draws' : Draws) (caller d : Uuid)
      (callerRow : User) (device : Device) (credentials hash : String), E.crypto.LowerCase →
    registerEmail E.crypto isAddress v = some body.email →
    (serve E (.auth (.register body) draws) w).1.registered = some user →
    Reach (ServerEvent.apply E) (fun _ _ => True) (serve E (.auth (.register body) draws) w).2 w' →
    pyLower E.crypto (pyStrip v') = pyLower E.crypto (pyStrip v) →
    Authenticated E credentials caller callerRow w' → DeviceMember d caller device w' →
    hashPassword E.crypto draws.bcryptSalt body.password = .ok hash →
    Identifies E isAddress v' user.id hash credentials d draws' w' := by
  intro h
  have hid := h Sample.env Sample.isAddress "carol@rawbin.io" "Carol@rawbin.io" Sample.deviceWorld
    Sample.carolAtWorld Sample.carolAt ⟨3, "carol@rawbin.io", none, "Carol", true, 0⟩
      (Sample.draws 3)
    (Sample.draws 4) 1 7 _ _ Sample.aliceToken "$Sup3rSecure!" Sample.lowerCase (by decide +kernel)
    Sample.carolAt_registered Reach.refl (by decide +kernel) Sample.aliceToken_authenticated
    Sample.device7_alice rfl
  exact absurd hid.share.1 (by decide +kernel)

end Rawbin
