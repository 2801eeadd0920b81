import Rawbin.Verify.MembershipViews
import Rawbin.Verify.UniformAnswers

/-!
# Registered accounts

No statement changes the email, the password hash or the activity of an account, and no two accounts
have the same email. What a registration stores is therefore what every later login reads. bcrypt
reads only the first 72 bytes of a password, while a registration admits longer ones.
-/

namespace Rawbin

/-- User `u` is active, with this email and this password hash, and nobody else has the email. -/
structure Db.Account (u : Uuid) (email hash : String) (db : Db) : Prop where
  row : ∃ user, db.users.get? u = some user ∧ user.email = email ∧ user.passwordHash = hash ∧
    user.isActive = true
  only : ∀ v user, db.users.get? v = some user → user.email = email → v = u

/-- The account that the answer of a registration names. -/
def Response.registered (response : Response) : Option UserResponse :=
  match response.body with
  | .register user _ => some user
  | _ => none

theorem emailTaken_eq_false_iff {db : Db} {email : String} : db.emailTaken email = false ↔
    ∀ u user, db.users.get? u = some user → user.email ≠ email := by
  rw [Db.emailTaken, Bool.not_eq_false', List.isEmpty_iff]
  constructor
  · intro h u user hu he
    have hm : (u, user) ∈ db.users.select fun _ user => user.email = email :=
      Table.mem_select.mpr ⟨hu, decide_eq_true he⟩
    rw [h] at hm
    cases hm
  · intro h
    refine List.eq_nil_iff_forall_not_mem.mpr fun e he => ?_
    obtain ⟨hu, he⟩ := Table.mem_select.mp he
    exact h _ _ hu (of_decide_eq_true he)

namespace Db.Account

variable {db : Db} {u : Uuid} {email hash : String}

/-- The account of a row that is inserted. -/
theorem of_insert {user : User} (h : (Write.insertUser u user).violates db = none)
    (ha : user.isActive = true) :
    Db.Account u user.email user.passwordHash ((Write.insertUser u user).apply db) := by
  obtain ⟨hid, hemail, _⟩ := Write.insertUser_violates_iff.mp h
  refine ⟨⟨user, Table.get?_insert_self hid user, rfl, rfl, ha⟩, ?_⟩
  intro v row hv he
  rcases Table.get?_of_insert hv with hv | ⟨hv, _⟩
  · exact absurd he (emailTaken_eq_false_iff.mp hemail v row hv)
  · exact hv

theorem constraint (u : Uuid) (email hash : String) : Db.Constraint (Db.Account u email hash) := by
  intro wr db hv h
  obtain ⟨⟨user, hu, hrow⟩, honly⟩ := h
  cases wr with
  | insertUser id row =>
    refine ⟨⟨user, Table.get?_insert_of_some hu id row, hrow⟩, fun v row' hv' he => ?_⟩
    rcases Table.get?_of_insert hv' with hv' | ⟨_, rfl⟩
    · exact honly v row' hv' he
    · have hemail := (Write.insertUser_violates_iff.mp hv).2.1
      have hnew := emailTaken_eq_false_iff.mp hemail u user hu
      exact absurd (hrow.1.trans he.symm) hnew
  | updateUser id patch =>
    constructor
    · rw [Write.apply]
      simp only [Table.get?_update]
      split
      · rename_i hid
        subst hid
        exact ⟨patch.apply user, by rw [hu, Option.map_some], hrow⟩
      · exact ⟨user, hu, hrow⟩
    · intro v row hv' he
      obtain ⟨row', hrow', rfl | rfl⟩ := Table.get?_of_update hv'
      · exact honly v _ hrow' he
      · exact honly v row' hrow' he
  | _ => exact ⟨⟨user, hu, hrow⟩, honly⟩

/-- A lookup by the email finds the account. -/
theorem userByEmail (h : db.Account u email hash) : ∃ user,
    (Query.userByEmail email).eval db = some (u, user) ∧ user.passwordHash = hash ∧
      user.isActive = true := by
  obtain ⟨user, hu, he, hhash, ha⟩ := h.row
  have hm : (u, user) ∈ db.users.select fun _ user => user.email = email :=
    Table.mem_select.mpr ⟨hu, decide_eq_true he⟩
  cases hq : (Query.userByEmail email).eval db with
  | none =>
    rw [List.head?_eq_none_iff.mp hq] at hm
    cases hm
  | some found =>
    obtain ⟨v, user'⟩ := found
    obtain ⟨hv, he'⟩ := Table.mem_select.mp (List.mem_of_head? hq)
    obtain rfl := h.only v user' hv (of_decide_eq_true he')
    cases hv.symm.trans hu
    exact ⟨user, rfl, hhash, ha⟩

end Db.Account

section
variable {E : Env} {w : World} {draws : Draws} {u : Uuid} {email hash : String}

/-- A registration that names an account has stored it. -/
theorem register_created {body : UserRegisterRequest} {user : UserResponse}
    (h : (serve E (.auth (.register body) draws) w).1.registered = some user) :
    ∃ hash, hashPassword E.crypto draws.bcryptSalt body.password = .ok hash ∧
      (serve E (.auth (.register body) draws) w).2.db.Account user.id body.email hash := by
  refine serve_ends (P := fun response w' => response.registered = some user → ∃ hash,
    hashPassword E.crypto draws.bcryptSalt body.password = .ok hash ∧
      w'.db.Account user.id body.email hash) ?_ h
  have herror (e : Exn) (hs : e.response.registered = some user) : False := by cases e <;> cases hs
  refine select_ends rfl fun t ht => raiseIf_ends (fun _ => nofun) fun _ => ?_
  refine ofExcept_ends (fun e _ hs => (herror e hs).elim) fun hash hhash => ?_
  refine txnow_ends ht fun t createdAt ht => ?_
  simp only [Prog.pure_bind, Handler.bind_apply, Handler.add_apply]
  refine flush_ends (fun t hf => ?_) fun t e _ hs => (herror e hs).elim
  rw [Session.view_of_nil ht] at hf
  obtain ⟨hv, hdb⟩ := Write.of_flushed_one hf
  refine issueTokenPair_ends (fun t' hf' => ?_) fun t' e _ hs => (herror e hs).elim
  obtain ⟨hv', hdb'⟩ := Write.of_flushed_one hf'
  intro hs
  cases hs
  refine ⟨hash, hhash, ?_⟩
  show Db.Account _ _ _ (t'.view w.db)
  rw [hdb', hdb]
  exact Db.Account.constraint _ _ _ _ _ (hdb ▸ hv') (.of_insert hv rfl)

theorem reach_account {w' : World} (h : w.db.Account u email hash)
    (H : Reach (ServerEvent.apply E) (fun _ _ => True) w w') : w'.db.Account u email hash :=
  run_constraint (Db.Account.constraint u email hash) h H

/-! ## Logins with other passwords -/

/-- What `hash` of the password library takes, `verify` takes too. -/
def Crypto.HashesCheckable (C : Crypto) : Prop :=
  ∀ salt plain hash, C.bcryptHash salt plain = .ok hash → Checkable plain

/-- A login for the account is answered by tokens iff the password can be checked and has the first
72 bytes of the one that was hashed. -/
theorem Db.Account.login_status (hb : E.crypto.Bcrypt) (h : w.db.Account u email hash)
    {salt : Nat} {plain : String} (hplain : hashPassword E.crypto salt plain = .ok hash)
    (hnew : draws.New E w) (q : String) :
    (serve E (.auth (.login ⟨email, q⟩) draws) w).1.status = 200 ↔
      Checkable q ∧ bcryptBytes q = bcryptBytes plain := by
  obtain ⟨user, hq, rfl, ha⟩ := h.userByEmail
  rw [login_answer _ fun _ => hnew]
  by_cases hc : Checkable q
  · rw [loginAnswer_checked hb hq hplain hc, ha]
    by_cases he : bcryptBytes q = bcryptBytes plain
    · rw [if_pos he]
      exact iff_of_true rfl ⟨hc, he⟩
    · rw [if_neg he]
      exact iff_of_false nofun fun h => he h.2
  · rw [loginAnswer_raises hb hq hc]
    exact iff_of_false nofun fun h => hc h.1

/-- **Registered passwords.** After an account was registered with a password, and anything was
served since, a login with `q` succeeds exactly when `q` is that password, iff `q` is that password
or cannot be checked or differs from it in the first 72 bytes. -/
theorem registered_password (hb : E.crypto.Bcrypt) (hhashes : E.crypto.HashesCheckable)
    {body : UserRegisterRequest} {user : UserResponse} {w' : World} {draws' : Draws}
    (h : (serve E (.auth (.register body) draws) w).1.registered = some user)
    (H : Reach (ServerEvent.apply E) (fun _ _ => True)
      (serve E (.auth (.register body) draws) w).2 w') (hnew : draws'.New E w') (q : String) :
    ((serve E (.auth (.login ⟨body.email, q⟩) draws') w').1.status = 200 ↔ q = body.password) ↔
      q = body.password ∨ ¬ Checkable q ∨ bcryptBytes q ≠ bcryptBytes body.password := by
  obtain ⟨hash, hhash, haccount⟩ := register_created h
  rw [(reach_account haccount H).login_status hb hhash hnew]
  by_cases hq : q = body.password
  · subst hq
    exact iff_of_true (iff_of_true ⟨hhashes _ _ _ hhash, rfl⟩ rfl) (.inl rfl)
  · simp only [hq, iff_false, false_or, not_and_or, ne_eq]

end

namespace Sample

theorem bcrypt_hashesCheckable : bcrypt.HashesCheckable := by
  intro salt plain hash h
  simp only [bcrypt] at h
  split at h
  · assumption
  · cases h

def carol (password : String) : UserRegisterRequest := ⟨"carol@rawbin.io", password, "Carol", none⟩

/-- The world after Carol registered with the password. -/
def carolWorld (password : String) : World :=
  (serve bcryptEnv (.auth (.register (carol password)) (draws 3)) world).2

/-- The token of Carol is the only one, and it has another id. -/
theorem carolWorld_new (password : String) : (draws 4).New bcryptEnv (carolWorld password) := by
  have h : SignInOf bcryptEnv _ world (draws 3) _ (carolWorld password) :=
    register_outcome (carol password)
  rcases h with h | ⟨u, _, h⟩
  · refine ⟨?_, fun id rt p hrow => ?_⟩
    · rw [h.table]
      rfl
    · rw [h.table] at hrow
      cases hrow
  · refine ⟨?_, fun id rt p hrow he hjti => ?_⟩
    · rw [h.table]
      rfl
    · rw [h.table] at hrow
      rcases Table.get?_of_insert hrow with hrow | ⟨_, rfl⟩
      · cases hrow
      · have hencode : crypto.jwtEncode _ = crypto.jwtEncode p := String.append_right_inj _ |>.mp he
        have hjti' : 3 = 4 := (jwt.encode _ p hencode).2.2.trans hjti
        cases hjti'

/-- Seventy-two times the same letter, then another one. -/
def longPassword (last : Char) : String := String.ofList (List.replicate 72 'a' ++ [last])

end Sample

/-- Carol, who registered with a short password, is turned away with another one. -/
theorem carol_wrongPassword :
    (serve Sample.bcryptEnv (.auth (.login ⟨"carol@rawbin.io", "Sup3rSecure?"⟩) (Sample.draws 4))
      (Sample.carolWorld "Sup3rSecure!")).1.status ≠ 200 := by
  have hregistered : (serve Sample.bcryptEnv
      (.auth (.register (Sample.carol "Sup3rSecure!")) (Sample.draws 3))
        Sample.world).1.registered =
        some ⟨3, "carol@rawbin.io", none, "Carol", true, 0⟩ := by
    decide +kernel
  have h := (registered_password Sample.bcrypt_laws Sample.bcrypt_hashesCheckable hregistered
    Reach.refl (Sample.carolWorld_new _) "Sup3rSecure?").mpr (.inr (.inr (by decide +kernel)))
  exact mt h.mp (by decide)

/-- Two passwords that a registration and a login accept. -/
theorem longPassword_accepted : ¬ ∀ (E : Env) (w w' : World) (body : UserRegisterRequest)
      (user : UserResponse) (draws draws' : Draws) (q : String), E.crypto.Bcrypt →
    E.crypto.HashesCheckable → 8 ≤ body.password.length → body.password.length ≤ 128 →
    1 ≤ q.length → (serve E (.auth (.register body) draws) w).1.registered = some user →
    Reach (ServerEvent.apply E) (fun _ _ => True)
      (serve E (.auth (.register body) draws) w).2 w' → draws'.New E w' →
    ((serve E (.auth (.login ⟨body.email, q⟩) draws') w').1.status = 200 ↔ q = body.password) := by
  intro h
  have hiff := h Sample.bcryptEnv Sample.world (Sample.carolWorld (Sample.longPassword 'b'))
    (Sample.carol (Sample.longPassword 'b')) ⟨3, "carol@rawbin.io", none, "Carol", true, 0⟩
      (Sample.draws 3)
    (Sample.draws 4) (Sample.longPassword 'c') Sample.bcrypt_laws Sample.bcrypt_hashesCheckable
    (by decide +kernel) (by decide +kernel) (by decide +kernel) (by decide +kernel) Reach.refl
    (Sample.carolWorld_new _)
  have hq : Sample.longPassword 'c' = Sample.longPassword 'b' := hiff.mp (by decide +kernel)
  exact absurd hq (by decide +kernel)

end Rawbin
