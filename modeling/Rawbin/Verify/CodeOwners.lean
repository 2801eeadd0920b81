import Rawbin.Verify.DisabledAccounts

/-!
# Whose code it is

A code by SMS is stored under a phone number, and the login looks up the account of the number
again. Beside the world a run keeps, for each number, the latest code, the account it was issued
for, and the accounts that took the number over since. Who logs in with the code is one of them.
-/

namespace Rawbin

/-- The requests that read or change numbers or codes. -/
inductive PhoneRequest where
  | register (body : UserRegisterRequest) (draws : Draws)
  | patchMe (credentials : String) (body : UserPatchIn) (draws : Draws)
  | requestOtp (body : OTPRequestIn) (draws : Draws)
  | verifyOtp (body : OTPVerifyIn) (draws : Draws)

def PhoneRequest.toRequest : PhoneRequest → Request
  | .register body draws => .auth (.register body) draws
  | .patchMe credentials body draws => .user credentials (.patchMe body) draws
  | .requestOtp body draws => .auth (.requestOtp body) draws
  | .verifyOtp body draws => .auth (.verifyOtp body) draws

inductive PhoneEvent where
  | request (r : PhoneRequest)
  | tick (dt : Nat)

/-- The latest code of a number. -/
structure SentCode where
  code : String
  sentAt : Time
  /-- The account that had the number, for which the request was accepted. -/
  user : Uuid
  /-- The accounts that got the number after the code was issued. -/
  takers : List Uuid

structure PhoneHistory where
  world : World
  sent : String → Option SentCode

def Db.phoneOf (db : Db) (u : Uuid) : Option String := (db.users.get? u).bind User.phone

/-- The account that got another number by a registration or a profile update, as the response
shows it. -/
def numberTaken (w : World) (response : Response) : Option (Uuid × String) :=
  match response.body with
  | .register out _ => out.phone.map (out.id, ·)
  | .user out => if w.db.phoneOf out.id = out.phone then none else out.phone.map (out.id, ·)
  | _ => none

namespace PhoneHistory

/-- An account got the number. -/
def take (h : PhoneHistory) : Option (Uuid × String) → String → Option SentCode
  | none => h.sent
  | some (u, p) =>
    Function.update h.sent p ((h.sent p).map fun s => { s with takers := u :: s.takers })

/-- A code was issued for the account. -/
def issue (E : Env) (h : PhoneHistory) (phone : String) (randbelow : Nat) :
    Option Uuid → String → Option SentCode
  | none => h.sent
  | some u =>
    Function.update h.sent phone (some ⟨generateCode E randbelow, h.world.now, u, []⟩)

end PhoneHistory

def PhoneEvent.apply (E : Env) : PhoneEvent → PhoneHistory → PhoneHistory
  | .request r, h =>
    let res := serve E r.toRequest h.world
    { world := res.2
      sent := match r with
        | .requestOtp body draws =>
            h.issue E body.phone draws.randbelow (codeUser h.world body.phone)
        | _ => h.take (numberTaken h.world res.1) }
  | .tick dt, h => { h with world := h.world.tick dt }

/-! ## Numbers -/

/-- The unique column `users.phone`. -/
def Db.PhonesUnique (db : Db) : Prop :=
  ∀ u v p, db.phoneOf u = some p → db.phoneOf v = some p → u = v

section
variable {db : Db} {u id : Uuid} {p : String}

theorem Db.phoneOf_eq_some_iff :
    db.phoneOf u = some p ↔ ∃ user, db.users.get? u = some user ∧ user.phone = some p := by
  rw [phoneOf, Option.bind_eq_some_iff]

theorem Db.phoneOf_insertUser {row : User}
    (h : ((Write.insertUser id row).apply db).phoneOf u = some p) :
    db.phoneOf u = some p ∨ u = id ∧ row.phone = some p := by
  obtain ⟨user, hu, hp⟩ := phoneOf_eq_some_iff.mp h
  rcases Table.get?_of_insert hu with hu | ⟨rfl, rfl⟩
  · exact .inl (phoneOf_eq_some_iff.mpr ⟨user, hu, hp⟩)
  · exact .inr ⟨rfl, hp⟩

theorem Db.phoneOf_updateUser {patch : UserPatch}
    (h : ((Write.updateUser id patch).apply db).phoneOf u = some p) :
    db.phoneOf u = some p ∨ u = id ∧ patch.phone = some p := by
  obtain ⟨user, hu, hp⟩ := phoneOf_eq_some_iff.mp h
  by_cases hid : u = id
  · obtain ⟨old, hold, rfl | rfl⟩ := Table.get?_of_update hu
    · exact .inl (phoneOf_eq_some_iff.mpr ⟨user, hold, hp⟩)
    · cases hpatch : patch.phone with
      | some q =>
        simp only [UserPatch.apply, hpatch] at hp
        cases hp
        exact .inr ⟨hid, rfl⟩
      | none =>
        simp only [UserPatch.apply, hpatch] at hp
        exact .inl (phoneOf_eq_some_iff.mpr ⟨old, hold, hp⟩)
  · rw [Write.apply, Table.get?_update_ne hid] at hu
    exact .inl (phoneOf_eq_some_iff.mpr ⟨user, hu, hp⟩)

theorem Db.phoneOf_of_not_taken {except : Option Uuid}
    (h : db.phoneTaken (some p) except = false) (hu : db.phoneOf u = some p) :
    some u = except := by
  by_contra hne
  obtain ⟨user, hu, hp⟩ := phoneOf_eq_some_iff.mp hu
  have hmem : (u, user) ∈ db.users.select fun id row => row.phone = some p && some id ≠ except :=
    Table.mem_select.mpr ⟨hu, by simp [hp, hne]⟩
  simp only [phoneTaken, Option.isSome_some, Bool.true_and, Bool.not_eq_false',
    List.isEmpty_iff] at h
  rw [h] at hmem
  cases hmem

theorem Db.PhonesUnique.constraint : Db.Constraint Db.PhonesUnique := by
  intro wr db hv h
  cases wr with
  | insertUser id row =>
    have hfree {v : Uuid} {p : String} (hp : row.phone = some p) (hv' : db.phoneOf v = some p) :
        False := by
      obtain ⟨_, _, htaken⟩ := Write.insertUser_violates_iff.mp hv
      rw [hp] at htaken
      cases phoneOf_of_not_taken htaken hv'
    intro u v p hu hu'
    rcases phoneOf_insertUser hu with hold | ⟨rfl, hp⟩ <;>
      rcases phoneOf_insertUser hu' with hold' | ⟨rfl, hp'⟩
    · exact h u v p hold hold'
    · exact (hfree hp' hold).elim
    · exact (hfree hp hold').elim
    · rfl
  | updateUser id patch =>
    have hfree {v : Uuid} {p : String} (hp : patch.phone = some p) (hv' : db.phoneOf v = some p) :
        v = id := by
      rw [Write.violates, hp] at hv
      split at hv
      · cases hv
      · cases ht : db.phoneTaken (some p) (some id) with
        | false => exact Option.some.inj (phoneOf_of_not_taken ht hv')
        | true =>
          rw [ht] at hv
          cases hv
    intro u v p hu hu'
    rcases phoneOf_updateUser hu with hold | ⟨rfl, hp⟩ <;>
      rcases phoneOf_updateUser hu' with hold' | ⟨rfl, hp'⟩
    · exact h u v p hold hold'
    · exact hfree hp' hold
    · exact (hfree hp hold').symm
    · rfl
  | _ => exact h

end

/-! ## The requests -/

/-- What a request other than `request_otp` does to codes and numbers. -/
structure NumbersOutcome (w : World) (response : Response) (w' : World) : Prop where
  codes : ∀ p, w'.redis (.otpCode p) = w.redis (.otpCode p) ∨ w'.redis (.otpCode p) = none
  numbers : ∀ u p, w'.db.phoneOf u = some p →
    w.db.phoneOf u = some p ∨ numberTaken w response = some (u, p)

section
variable {E : Env} {w : World} {draws : Draws} {response : Response}

theorem NumbersOutcome.of_users {w' : World} (hredis : w'.redis = w.redis)
    (husers : w'.db.users = w.db.users) : NumbersOutcome w response w' := by
  refine ⟨fun p => .inl (by rw [hredis]), fun u p hp => .inl ?_⟩
  rw [← hp, Db.phoneOf, Db.phoneOf, husers]

theorem NumbersOutcome.refl : NumbersOutcome w response w := .of_users rfl rfl

theorem register_numbers (body : UserRegisterRequest) :
    NumbersOutcome w (serve E (.auth (.register body) draws) w).1
      (serve E (.auth (.register body) draws) w).2 := by
  refine serve_ends (P := NumbersOutcome w) (select_ends rfl fun t ht => ?_)
  refine raiseIf_ends (fun _ => .refl) fun _ => ofExcept_ends (fun e _ => .refl) fun _ _ => ?_
  refine txnow_ends ht fun t createdAt ht => ?_
  simp only [Prog.pure_bind, Handler.bind_apply, Handler.add_apply]
  refine flush_ends (fun t' hf => ?_) fun t' e _ => .refl
  rw [Session.view_of_nil ht] at hf
  obtain ⟨_, hdb⟩ := Write.of_flushed_one hf
  refine issueTokenPair_ends (fun t'' hf' => ?_) fun t'' e _ => .refl
  obtain ⟨_, hdb'⟩ := Write.of_flushed_one hf'
  refine ⟨fun p => .inl rfl, fun u p hp => ?_⟩
  replace hp : (t''.view w.db).phoneOf u = some p := hp
  rw [hdb', hdb] at hp
  rcases Db.phoneOf_insertUser hp with hold | ⟨rfl, hphone⟩
  · exact .inl hold
  · refine .inr ?_
    replace hphone : body.phone = some p := hphone
    simp only [numberTaken, UserResponse.ofRow, hphone, Option.map_some]

theorem newPhone_ends {Q : Except Exn γ → Session → World → Prop} {t : Session}
    {body : UserPatchIn} {user : CurrentUser} {k : Option String × List Write → Prog Cmd Exn γ}
    (ht : t.written = []) (herr : ∀ t' e, Q (.error e) t' w)
    (hok : ∀ t' phone, t'.written = [] → Ends Q t' w (k (phone, []))) :
    Ends Q t w ((newPhone body user []).bind k) := by
  rw [newPhone]
  cases body.phone with
  | none => exact hok t none ht
  | some phone =>
    refine ite_ends (fun _ => hok t none ht) fun _ => ?_
    simp only [Handler.bind_apply, Prog.bind_assoc]
    refine select_ends ht fun t' ht' => ?_
    exact raiseIf_ends (fun _ => herr t' _) fun _ => hok t' (some phone) ht'

theorem patchMe_numbers (credentials : String) (body : UserPatchIn) :
    NumbersOutcome w (serve E (.user credentials (.patchMe body) draws) w).1
      (serve E (.user credentials (.patchMe body) draws) w).2 := by
  refine serve_ends (P := NumbersOutcome w) ?_
  refine getCurrentUser_ends rfl (fun t _ => .refl) fun t id user ht hauth => ?_
  obtain ⟨_, _, _, _, huser, _⟩ := hauth
  refine newPhone_ends ht (fun t e => .refl) fun t phone ht => ?_
  simp only [updateUser, Handler.bind_apply]
  refine when_ends (fun _ => ?_) fun _ => ?_
  · refine flush_ends (fun t' hf => ?_) fun t' e _ => .refl
    rw [Session.view_of_nil ht] at hf
    obtain ⟨_, hdb⟩ := Write.of_flushed_one hf
    refine ⟨fun p => .inl rfl, fun u p hp => ?_⟩
    replace hp : (t'.view w.db).phoneOf u = some p := hp
    rw [hdb] at hp
    rcases Db.phoneOf_updateUser hp with hold | ⟨rfl, hphone⟩
    · exact .inl hold
    · replace hphone : phone = some p := hphone
      subst hphone
      by_cases hsame : w.db.phoneOf u = some p
      · exact .inl hsame
      · exact .inr (if_neg hsame)
  · refine flush_ends (fun t' hf => ?_) fun t' e _ => .refl
    rw [Session.view_of_nil ht] at hf
    have hdb : t'.view w.db = w.db := (Except.ok.inj hf).symm
    exact .of_users rfl (congrArg Db.users hdb)

theorem verifyOtp_numbers (body : OTPVerifyIn) :
    NumbersOutcome w (serve E (.auth (.verifyOtp body) draws) w).1
      (serve E (.auth (.verifyOtp body) draws) w).2 := by
  refine serve_ends (P := NumbersOutcome w) (verifyCode_ends ?_)
  generalize hw₁ : World.mk w.db (w.redis.verify E w.now body.phone body.code).2 w.now = w₁
  have hdb : w₁.db = w.db := hw₁ ▸ rfl
  have hkept {response : Response} {w' : World} (hredis : w'.redis = w₁.redis)
      (husers : w'.db.users = w₁.db.users) : NumbersOutcome w response w' := by
    have hphone (u : Uuid) : w'.db.phoneOf u = w.db.phoneOf u := by
      rw [Db.phoneOf, Db.phoneOf, husers, hdb]
    refine ⟨fun p => ?_, fun u p hp => .inl ((hphone u).symm.trans hp)⟩
    rw [hredis, ← hw₁]
    exact Redis.verify_otpCode p
  refine raiseIf_ends (fun _ => hkept rfl rfl) fun _ => select_ends rfl fun t ht => ?_
  cases (Query.userByPhone body.phone).eval w₁.db with
  | none => exact hkept rfl rfl
  | some found =>
    obtain ⟨id, user⟩ := found
    refine raiseIf_ends (fun _ => hkept rfl rfl) fun _ => ?_
    refine issueTokenPair_ends (fun t' hf => ?_) fun t' e _ => hkept rfl rfl
    rw [Session.view_of_nil ht] at hf
    have husers : (t'.view w₁.db).users = w₁.db.users := by
      rw [(Write.of_flushed_one hf).2]
      rfl
    exact hkept rfl husers

/-- A code is issued for the active account that has the number. -/
theorem phoneOf_codeUser {phone : String} {u : Uuid} (h : codeUser w phone = some u) :
    w.db.phoneOf u = some phone := by
  rw [codeUser] at h
  split at h
  · cases h
  · rename_i id user hq
    split at h
    · cases h
      obtain ⟨hu, hp⟩ := Table.mem_select.mp (List.mem_of_head? hq)
      exact Db.phoneOf_eq_some_iff.mpr ⟨user, hu, of_decide_eq_true hp⟩
    · cases h

end

/-! ## Runs -/

/-- The account has the number because the code was issued for it, or because it took the number
over since. -/
def SentCode.MayBelongTo (s : SentCode) (u : Uuid) : Prop := u = s.user ∨ u ∈ s.takers

/-- A stored code is the latest one of its number, and whoever has the number may own it. -/
structure CodeInv (E : Env) (h : PhoneHistory) : Prop where
  unique : h.world.db.PhonesUnique
  sent : ∀ p e, h.world.redis (.otpCode p) = some e → ∃ s, h.sent p = some s ∧
    e = ⟨hashCode E s.code, some (s.sentAt + seconds E.cfg.otpTtlSeconds)⟩ ∧
    ∀ u, h.world.db.phoneOf u = some p → s.MayBelongTo u

section
variable {E : Env} {h : PhoneHistory} {w₀ w' : World} {u : Uuid}

theorem CodeInv.take (H : CodeInv E h) (hunique : w'.db.PhonesUnique)
    (ho : NumbersOutcome h.world response w') :
    CodeInv E ⟨w', h.take (numberTaken h.world response)⟩ := by
  refine ⟨hunique, fun p e he => ?_⟩
  have hcode : h.world.redis (.otpCode p) = some e := by
    rcases ho.codes p with hkept | hgone
    · exact hkept.symm.trans he
    · cases hgone.symm.trans he
  obtain ⟨s, hs, hentry, howner⟩ := H.sent p e hcode
  cases htaken : numberTaken h.world response with
  | none =>
    refine ⟨s, hs, hentry, fun u hu => ?_⟩
    rcases ho.numbers u p hu with hu | hu
    · exact howner u hu
    · cases htaken.symm.trans hu
  | some taken =>
    obtain ⟨v, q⟩ := taken
    by_cases hq : p = q
    · subst hq
      refine ⟨{ s with takers := v :: s.takers }, ?_, hentry, fun u hu => ?_⟩
      · show Function.update _ _ _ _ = _
        rw [Function.update_self, hs, Option.map_some]
      · rcases ho.numbers u p hu with hu | hu
        · exact (howner u hu).imp id (List.mem_cons_of_mem v)
        · cases htaken.symm.trans hu
          exact .inr List.mem_cons_self
    · refine ⟨s, ?_, hentry, fun u hu => ?_⟩
      · show Function.update _ _ _ _ = _
        rw [Function.update_of_ne hq, hs]
      · rcases ho.numbers u p hu with hu | hu
        · exact howner u hu
        · cases htaken.symm.trans hu
          exact absurd rfl hq

theorem CodeInv.issue (H : CodeInv E h) {phone : String} {randbelow : Nat}
    (hu : h.world.db.phoneOf u = some phone) :
    CodeInv E ⟨{ h.world with
        redis := h.world.redis.issue E h.world.now phone (generateCode E randbelow) },
      h.issue E phone randbelow (some u)⟩ := by
  refine ⟨H.unique, fun p e he => ?_⟩
  by_cases hp : p = phone
  · subst hp
    refine ⟨⟨generateCode E randbelow, h.world.now, u, []⟩, Function.update_self .., ?_,
      fun v hv => .inl (H.unique v u p hv hu)⟩
    exact Option.some.inj (he.symm.trans Redis.issue_otpCode)
  · have hkept : h.world.redis.issue E h.world.now phone (generateCode E randbelow) (.otpCode p) =
        h.world.redis (.otpCode p) :=
      Redis.issue_of_ne (fun hk => hp (RedisKey.otpCode.inj hk)) (by nofun) (by nofun)
    obtain ⟨s, hs, hentry, howner⟩ := H.sent p e (hkept.symm.trans he)
    exact ⟨s, (Function.update_of_ne hp ..).trans hs, hentry, howner⟩

/-- **One step.** -/
theorem PhoneEvent.apply_inv (H : CodeInv E h) (e : PhoneEvent) : CodeInv E (e.apply E h) := by
  cases e with
  | tick dt => exact ⟨H.unique, H.sent⟩
  | request r =>
    have hunique : (serve E r.toRequest h.world).2.db.PhonesUnique :=
      serve_constraint Db.PhonesUnique.constraint H.unique
    cases r with
    | register body draws => exact H.take hunique (register_numbers body)
    | patchMe credentials body draws => exact H.take hunique (patchMe_numbers credentials body)
    | verifyOtp body draws => exact H.take hunique (verifyOtp_numbers body)
    | requestOtp body draws =>
      have ho : OtpRequestOutcome E h.world body.phone draws.randbelow _ _ := requestOtp_served body
      show CodeInv E ⟨(serve E (.auth (.requestOtp body) draws) h.world).2,
        h.issue E body.phone draws.randbelow (codeUser h.world body.phone)⟩
      rw [ho.world]
      cases hu : codeUser h.world body.phone with
      | none => exact ⟨H.unique, H.sent⟩
      | some u => exact H.issue (phoneOf_codeUser hu)

theorem PhoneHistory.reach_inv (hcodes : ∀ p, w₀.redis (.otpCode p) = none)
    (hphones : w₀.db.PhonesUnique)
    (H : Reach (PhoneEvent.apply E) (fun _ _ => True) ⟨w₀, fun _ => none⟩ h) : CodeInv E h := by
  refine H.invariant (P := CodeInv E) ⟨hphones, fun p e he => ?_⟩ fun _ e hi _ => e.apply_inv hi
  cases (hcodes p).symm.trans he

/-- **Whose code it is.** If a verification issues tokens for `u`, the code is the latest one that
was issued for the number, at most its lifetime ago, for the account that had the number then; `u`
has the number now, and is that account or took the number over since. -/
theorem code_owners (hjwt : E.crypto.Jwt) (hcodes : ∀ p, w₀.redis (.otpCode p) = none)
    (hphones : w₀.db.PhonesUnique)
    (H : Reach (PhoneEvent.apply E) (fun _ _ => True) ⟨w₀, fun _ => none⟩ h) (body : OTPVerifyIn)
    (draws : Draws)
    (hnew : NewTokens E u h.world (serve E (.auth (.verifyOtp body) draws) h.world).1
      (serve E (.auth (.verifyOtp body) draws) h.world).2) :
    ∃ s, h.sent body.phone = some s ∧ hashCode E body.code = hashCode E s.code ∧
      h.world.now < s.sentAt + seconds E.cfg.otpTtlSeconds ∧
      h.world.db.phoneOf u = some body.phone ∧ (u = s.user ∨ u ∈ s.takers) := by
  have hinv := PhoneHistory.reach_inv hcodes hphones H
  have howner : CodeOwner E h.world body u := (verifyOtp_outcome body).of_newTokens hjwt hnew
  obtain ⟨e, he, hvalue, hlive⟩ := Expiring.get_eq_some_iff.mp howner.code
  obtain ⟨s, hs, rfl, hmay⟩ := hinv.sent body.phone e he
  obtain ⟨user, hu, hp, _⟩ := howner.user
  have hphone : h.world.db.phoneOf u = some body.phone :=
    Db.phoneOf_eq_some_iff.mpr ⟨user, hu, hp⟩
  exact ⟨s, hs, hvalue.symm, hlive _ rfl, hphone, hmay u hphone⟩

end

/-! ## A number that changes hands -/

namespace Sample

def patchPhone (u : Uuid) (phone : String) : PhoneEvent :=
  .request (.patchMe (jwtEncode ⟨u, .access, 0, 0, 0⟩) ⟨none, some phone⟩ (draws 0))

/-- Alice asks for a code for her number. -/
def aliceAsks : PhoneHistory :=
  [patchPhone 1 "+4901", .request (.requestOtp ⟨"+4901"⟩ (draws 0))].foldl
    (fun h e => e.apply env h) ⟨world, fun _ => none⟩

/-- Then she changes her number, and Bob takes the old one. -/
def bobTakes : PhoneHistory :=
  [patchPhone 1 "+4902", patchPhone 2 "+4901"].foldl (fun h e => e.apply env h) aliceAsks

def codeOfAlice : OTPVerifyIn := ⟨"+4901", "123456"⟩

theorem aliceAsks_reached :
    Reach (PhoneEvent.apply env) (fun _ _ => True) ⟨world, fun _ => none⟩ aliceAsks :=
  (Reach.refl.step (e := patchPhone 1 "+4901") trivial).step
    (e := PhoneEvent.request (.requestOtp ⟨"+4901"⟩ (draws 0))) trivial

theorem bobTakes_reached :
    Reach (PhoneEvent.apply env) (fun _ _ => True) ⟨world, fun _ => none⟩ bobTakes :=
  (aliceAsks_reached.step (e := patchPhone 1 "+4902") trivial).step
    (e := patchPhone 2 "+4901") trivial

/-- The account gets a row of `refresh_tokens` by a verification. -/
theorem newTokens_of_row {w w' : World} {u : Uuid} {response : Response} (id : Uuid)
    (hnone : w.db.refreshTokens.get? id = none)
    (hrow : (w'.db.refreshTokens.get? id).map RefreshToken.userId = some u) :
    NewTokens env u w response w' := by
  obtain ⟨rt, hrt, hu⟩ := Option.map_eq_some_iff.mp hrow
  exact .inl ⟨id, rt, hnone, hrt, hu⟩

theorem world_phonesUnique : world.db.PhonesUnique := by
  intro u v p hu
  obtain ⟨user, hu, hp⟩ := Db.phoneOf_eq_some_iff.mp hu
  rcases Table.get?_of_insert hu with hu | ⟨_, rfl⟩
  · rcases Table.get?_of_insert hu with hu | ⟨_, rfl⟩
    · cases hu
    · cases hp
  · cases hp

end Sample

/-- Alice logs in with her code while she has the number. -/
theorem aliceAsks_owners : ∃ s, Sample.aliceAsks.sent "+4901" = some s ∧
    hashCode Sample.env "123456" = hashCode Sample.env s.code ∧
    Sample.aliceAsks.world.now < s.sentAt + seconds Sample.env.cfg.otpTtlSeconds ∧
    Sample.aliceAsks.world.db.phoneOf 1 = some "+4901" ∧ (1 = s.user ∨ 1 ∈ s.takers) := by
  refine code_owners Sample.jwt (fun _ => rfl) Sample.world_phonesUnique Sample.aliceAsks_reached
    Sample.codeOfAlice (Sample.draws 0) (Sample.newTokens_of_row 0 ?_ ?_)
  · decide +kernel
  · decide +kernel

/-- The code that was issued for Alice logs its holder in to Bob's account. -/
theorem bobTakes_other_owner : ¬ ∀ h, Reach (PhoneEvent.apply Sample.env) (fun _ _ => True)
      ⟨Sample.world, fun _ => none⟩ h → ∀ (body : OTPVerifyIn) (draws : Draws) (u : Uuid),
    NewTokens Sample.env u h.world
      (serve Sample.env (.auth (.verifyOtp body) draws) h.world).1
      (serve Sample.env (.auth (.verifyOtp body) draws) h.world).2 →
    ∃ s, h.sent body.phone = some s ∧
      hashCode Sample.env body.code = hashCode Sample.env s.code ∧ s.user = u := by
  intro hall
  obtain ⟨s, hs, _, hu⟩ := hall _ Sample.bobTakes_reached Sample.codeOfAlice (Sample.draws 0) 2
    (Sample.newTokens_of_row 0 (by decide +kernel) (by decide +kernel))
  have hsent : (Sample.bobTakes.sent "+4901").map SentCode.user = some 1 := by decide +kernel
  have hs' : Sample.bobTakes.sent "+4901" = some s := hs
  rw [hs', Option.map_some, hu] at hsent
  cases hsent

end Rawbin
