import Rawbin.Verify.LocalAssertions

/-!
# Concurrent rotation of one refresh token

Refresh and logout decide on a plain SELECT and revoke by an UPDATE of the primary key. The row
lock makes the UPDATEs follow one another, but it is taken after the decision.
-/

namespace Rawbin

/-- The job presents the token to `/auth/refresh` or `/auth/logout`. -/
def presents (token : String) : Job → Bool
  | .http (.auth (.refresh body) _) => body.refreshToken = token
  | .http (.auth (.logout body) _) => body.refreshToken = token
  | _ => false

def isRefresh : Job → Bool
  | .http (.auth (.refresh _) _) => true
  | _ => false

/-- The command sends a new pair to the client. -/
def sendsTokens (c : Cmd β) : Bool :=
  match c.response with
  | some ⟨200, .tokens _, _⟩ => true
  | _ => false

/-- A new pair was sent to the client. -/
def Rotated (log : Log) : Prop := ∃ e ∈ log, sendsTokens e.cmd = true

def Committed (log : Log) : Prop := ∃ e ∈ log, e.cmd.isCommit = true

/-- The job found the token in the row with this key. -/
def RowRead (hash : String) (log : Log) (id : Uuid) : Prop :=
  ∃ rt, ⟨_, .select (.refreshTokenByHash hash), some (id, rt)⟩ ∈ log

/-! ## What the two routes know -/

def TokenWrite (hash : String) (log : Log) : Write → Prop
  | .updateRefreshToken id revoked => revoked = true ∧ RowRead hash log id
  | .insertRefreshToken .. => ∃ id, RowRead hash log id
  | _ => False

structure RotationLocal (hash : String) (j : Job) (log : Log) (ws : List Write) : Prop where
  writes : ∀ w ∈ ws, TokenWrite hash log w
  rotated : Rotated log → isRefresh j = true ∧
    ((∃ id, .updateRefreshToken id true ∈ ws) ∨ Committed log)
  committed : Committed log → isRefresh j = true → ∃ id, RowRead hash log id

/-- The same while no new pair has been sent and nothing committed. -/
structure RotationBody (hash : String) (found : Option Uuid) (log : Log) (ws : List Write) :
    Prop where
  writes : ∀ w ∈ ws, TokenWrite hash log w
  silent : ∀ e ∈ log, sendsTokens e.cmd = false ∧ e.cmd.isCommit = false
  read : ∀ id ∈ found, RowRead hash log id

def RotationAssertion (hash : String) (j : Job) : Assertion := fun log ws c =>
  c.plain = true ∧ (c.isSelect = true → ws = []) ∧
    (c.isCommit = true → isRefresh j = true → ∃ id, .updateRefreshToken id true ∈ ws) ∧
    RotationLocal hash j log ws

theorem RowRead.mono {hash : String} {log log' : Log} {id : Uuid} (h : log <+: log')
    (H : RowRead hash log id) :
    RowRead hash log' id := H.imp fun _ hm => h.subset hm

theorem TokenWrite.mono {hash : String} {log log' : Log} (h : log <+: log')
    (H : TokenWrite hash log w) : TokenWrite hash log' w := by
  cases w with
  | updateRefreshToken id revoked => exact ⟨H.1, H.2.mono h⟩
  | insertRefreshToken id row => exact H.imp fun _ hr => hr.mono h
  | _ => exact H.elim

namespace RotationBody

variable {hash : String} {found : Option Uuid} {j : Job} {log : Log} {ws : List Write}

theorem toLocal (h : RotationBody hash found log ws) : RotationLocal hash j log ws where
  writes := h.writes
  rotated := fun ⟨e, he, ht⟩ => by rw [(h.silent e he).1] at ht; cases ht
  committed := fun ⟨e, he, hc⟩ => by rw [(h.silent e he).2] at hc; cases hc

theorem empty : RotationBody hash none [] [] where
  writes _ h := absurd h List.not_mem_nil
  silent _ h := absurd h List.not_mem_nil
  read _ h := nomatch h

theorem snoc (h : RotationBody hash found log ws) (hr : sendsTokens e.cmd = false)
    (hc : e.cmd.isCommit = false) : RotationBody hash found (log ++ [e]) ws where
  writes w hw := (h.writes w hw).mono (List.prefix_append ..)
  silent e' he' := by
    rcases List.mem_append.mp he' with he' | he'
    · exact h.silent e' he'
    · exact List.mem_singleton.mp he' ▸ ⟨hr, hc⟩
  read id hid := (h.read id hid).mono (List.prefix_append ..)

/-- A command that sends nothing. -/
theorem quiet (h : RotationBody hash found log ws) (hr : e.cmd.response = none)
    (hc : e.cmd.isCommit = false) : RotationBody hash found (log ++ [e]) ws :=
  h.snoc (by simp [sendsTokens, hr]) hc

/-- After a rollback. -/
theorem discard (h : RotationBody hash found log ws) : RotationBody hash found log [] :=
  { h with writes := fun _ hw => absurd hw List.not_mem_nil }

theorem write (h : RotationBody hash found log ws) (hw : TokenWrite hash log w) :
    RotationBody hash found log (ws ++ [w]) where
  writes w' hw' := by
    rcases List.mem_append.mp hw' with hw' | hw'
    · exact h.writes w' hw'
    · exact List.mem_singleton.mp hw' ▸ hw
  silent := h.silent
  read := h.read

theorem assertion (h : RotationBody hash found log ws) {c : Cmd β} (hp : c.plain = true)
    (hs : c.isSelect = true → ws = []) (hc : c.isCommit = false) :
    RotationAssertion hash j log ws c :=
  ⟨hp, hs, fun h => absurd h (by rw [hc]; nofun), h.toLocal⟩

/-- The SELECT of both routes. -/
theorem select {I : Assertion} {Q : Ending α} {k : Option (Uuid × RefreshToken) → Prog Cmd Exn α}
    (hI : I [] [] (.select (.refreshTokenByHash hash)))
    (hnone : ∀ log, RotationBody hash none log [] → Keeps I Q log [] (k none))
    (hsome : ∀ log id rt, RotationBody hash (some id) log [] →
      Keeps I Q log [] (k (some (id, rt)))) :
    Keeps I Q [] [] (.cmd (.select (.refreshTokenByHash hash)) k) := by
  refine .select hI fun db => ?_
  cases (Query.refreshTokenByHash hash).eval db with
  | none => exact hnone _ (empty.quiet rfl rfl)
  | some found =>
    obtain ⟨id, rt⟩ := found
    refine hsome _ id rt { empty.quiet rfl rfl with read := ?_ }
    rintro _ ⟨⟩
    exact ⟨rt, List.mem_append_right _ (List.mem_singleton_self _)⟩

end RotationBody

section
variable {E : Env} {draws : Draws} {body : RefreshRequest} {j : Job}

/-- The body of a refresh: an error, or the UPDATE and the INSERT are executed. -/
def RefreshEnd (hash : String) : Ending (Response × List Write) := fun log ws r =>
  match r with
  | .ok (_, pending) => pending = [] ∧ ∃ id, RotationBody hash (some id) log ws ∧
    .updateRefreshToken id true ∈ ws
  | .error _ => ∃ found, RotationBody hash found log ws

theorem refresh_keeps :
    Keeps (RotationAssertion (hashToken E body.refreshToken) j)
      (RefreshEnd (hashToken E body.refreshToken)) [] [] (refresh E body draws []) := by
  refine RotationBody.select (RotationBody.empty.assertion rfl (fun _ => rfl) rfl)
    (fun log h => .raise ⟨_, h⟩) fun log id rt h₀ => ?_
  refine raiseIf_keeps ⟨_, h₀⟩ fun _ => .utcnow (h₀.assertion rfl nofun rfl) fun now => ?_
  have h₁ := h₀.quiet (e := ⟨_, .utcnow, now⟩) rfl rfl
  refine raiseIf_keeps ⟨_, h₁⟩ fun _ => ?_
  -- the clock reads of the two tokens and of the new row
  refine .utcnow (h₁.assertion rfl nofun rfl) fun t₁ => ?_
  have h₂ := h₁.quiet (e := ⟨_, .utcnow, t₁⟩) rfl rfl
  refine .utcnow (h₂.assertion rfl nofun rfl) fun t₂ => ?_
  have h₃ := h₂.quiet (e := ⟨_, .utcnow, t₂⟩) rfl rfl
  refine .utcnow (h₃.assertion rfl nofun rfl) fun t₃ => ?_
  have h₄ := h₃.quiet (e := ⟨_, .utcnow, t₃⟩) rfl rfl
  refine .utcnow (h₄.assertion rfl nofun rfl) fun t₄ => ?_
  have h₅ := h₄.quiet (e := ⟨_, .utcnow, t₄⟩) rfl rfl
  refine .utcnow (h₅.assertion rfl nofun rfl) fun t₅ => ?_
  have h₆ := h₅.quiet (e := ⟨_, .utcnow, t₅⟩) rfl rfl
  refine .execute (h₆.assertion rfl nofun rfl) (fun _ => .raise ⟨_, h₆.quiet rfl rfl⟩) nofun ?_
  have h₇ := (h₆.quiet (e := ⟨_, .execute (.updateRefreshToken id true), .ok ()⟩) rfl rfl).write
    (w := .updateRefreshToken id true) ⟨rfl, (h₆.quiet rfl rfl).read id rfl⟩
  refine .execute (h₇.assertion rfl nofun rfl) (fun _ => .raise ⟨_, h₇.quiet rfl rfl⟩) nofun ?_
  refine .pure ⟨rfl, id, (h₇.quiet rfl rfl).write ⟨id, (h₇.quiet rfl rfl).read id rfl⟩, ?_⟩
  simp

/-- The body of a logout: at most the UPDATE is pending. -/
def LogoutEnd (hash : String) : Ending (Response × List Write) := fun log ws r =>
  ws = [] ∧ match r with
  | .ok (response, pending) => response.body = .empty ∧ ∃ found, RotationBody hash found log [] ∧
    (pending = [] ∨ ∃ id ∈ found, pending = [.updateRefreshToken id true])
  | .error _ => False

theorem logout_keeps :
    Keeps (RotationAssertion (hashToken E body.refreshToken) j)
      (LogoutEnd (hashToken E body.refreshToken)) [] [] (logout E body []) := by
  refine RotationBody.select (RotationBody.empty.assertion rfl (fun _ => rfl) rfl)
    (fun log h => .pure ⟨rfl, rfl, _, h, .inl rfl⟩) fun log id rt h => ?_
  exact when_keeps (fun _ => .pure ⟨rfl, rfl, some id, h, .inr ⟨id, rfl, rfl⟩⟩)
    fun _ => .pure ⟨rfl, rfl, some id, h, .inl rfl⟩

theorem Exn.not_sendsTokens (e : Exn) : sendsTokens (.respond e.response) = false := by
  cases e with
  | http status => simp [sendsTokens, Cmd.response, Exn.response]
  | _ => rfl

theorem not_sendsTokens_of_empty {r : Response} (h : r.body = .empty) :
    sendsTokens (.respond r) = false := by
  obtain ⟨status, body, headers⟩ := r
  obtain rfl : body = .empty := h
  simp [sendsTokens, Cmd.response]

theorem refreshJob_keeps (hj : j = .http (.auth (.refresh body) draws)) :
    Keeps (RotationAssertion (hashToken E body.refreshToken) j)
      (fun log ws _ => RotationLocal (hashToken E body.refreshToken) j log ws) [] []
      (Job.prog E (.http (.auth (.refresh body) draws))) := by
  refine .bind (R := fun log ws _ => RotationLocal (hashToken E body.refreshToken) j log ws)
    (getDb_keeps refresh_keeps ?_ ?_) (fun _ _ _ h => .pure h) fun _ _ _ h => h
  · rintro log ws e ⟨found, h⟩
    have h₁ := (h.quiet (e := ⟨_, .rollback, ()⟩) rfl rfl).discard
    exact .rollback (h.assertion rfl nofun rfl) (.respond (h₁.assertion rfl nofun rfl)
      (.pure (h₁.snoc e.not_sendsTokens rfl).toLocal))
  · rintro log ws response _ ⟨rfl, id, h, hu⟩
    have hr : isRefresh j = true := by rw [hj]; rfl
    refine .respond (h.assertion rfl nofun rfl)
      (.commit ⟨rfl, nofun, fun _ _ => ⟨id, hu⟩, ?_⟩ (.pure ?_))
    · refine ⟨fun w hw => (h.writes w hw).mono (List.prefix_append ..),
        fun _ => ⟨hr, .inl ⟨id, hu⟩⟩, ?_⟩
      rintro ⟨e, he, hc⟩
      rcases List.mem_append.mp he with he | he
      · rw [(h.silent e he).2] at hc; cases hc
      · rw [List.mem_singleton.mp he] at hc; cases hc
    · refine ⟨fun _ hw => absurd hw List.not_mem_nil, fun _ => ⟨hr, .inr ?_⟩, fun _ _ => ⟨id, ?_⟩⟩
      · exact ⟨⟨_, .commit, ()⟩, List.mem_append_right _ (List.mem_singleton_self _), rfl⟩
      · exact (h.read id rfl).mono ((List.prefix_append ..).trans (List.prefix_append ..))

/-- A commit that is not a refresh's. -/
theorem RotationBody.commit {hash : String} (h : RotationBody hash found log ws)
    (hj : isRefresh j = false)
    {k : Unit → Prog Cmd Exn α} {Q : Ending α}
    (hk : ∀ log, RotationLocal hash j log [] → Keeps (RotationAssertion hash j) Q log [] (k ())) :
    Keeps (RotationAssertion hash j) Q log ws (.cmd .commit k) := by
  have hne : ¬ isRefresh j = true := by rw [hj]; nofun
  refine .commit ⟨rfl, nofun, fun _ hr => absurd hr hne, h.toLocal⟩ (hk _ ?_)
  refine ⟨fun _ hw => absurd hw List.not_mem_nil, ?_, fun _ hr => absurd hr hne⟩
  rintro ⟨e, he, ht⟩
  rcases List.mem_append.mp he with he | he
  · rw [(h.silent e he).1] at ht
    cases ht
  · rw [List.mem_singleton.mp he] at ht
    cases ht

theorem logoutJob_keeps (hj : j = .http (.auth (.logout body) draws)) :
    Keeps (RotationAssertion (hashToken E body.refreshToken) j)
      (fun log ws _ => RotationLocal (hashToken E body.refreshToken) j log ws) [] []
      (Job.prog E (.http (.auth (.logout body) draws))) := by
  have hr : isRefresh j = false := by rw [hj]; rfl
  refine .bind (R := fun log ws _ => RotationLocal (hashToken E body.refreshToken) j log ws)
    (getDb_keeps logout_keeps (fun _ _ _ h => h.2.elim) ?_) (fun _ _ _ h => .pure h)
    fun _ _ _ h => h
  rintro log _ response pending ⟨rfl, hbody, found, h, hp⟩
  have h₁ := h.snoc (e := ⟨_, .respond response, ()⟩) (not_sendsTokens_of_empty hbody) rfl
  refine .respond (h.assertion rfl nofun rfl) ?_
  rcases hp with rfl | ⟨id, hid, rfl⟩
  · exact h₁.commit hr fun _ h => .pure h
  · have h₂ := h₁.quiet (e := ⟨_, .execute (.updateRefreshToken id true), .ok ()⟩) rfl rfl
    refine .execute (h₁.assertion rfl nofun rfl) (fun e => ?_) nofun ?_
    · have h₃ := h₁.quiet (e := ⟨_, .execute (.updateRefreshToken id true), .error e⟩) rfl rfl
      exact .rollback (h₃.assertion rfl nofun rfl) (.pure (h₃.quiet rfl rfl).toLocal)
    · have hw : TokenWrite _ _ (.updateRefreshToken id true) := ⟨rfl, h₂.read id hid⟩
      exact (h₂.write hw).commit hr fun _ h => .pure h

end

/-! ## The stored row -/

/-- The token is stored in the row with this key and in no other. -/
structure Stored (hash : String) (id₀ : Uuid) (db : Db) : Prop where
  row : ∃ rt, db.refreshTokens.get? id₀ = some rt ∧ rt.tokenHash = hash
  unique : ∀ id rt, db.refreshTokens.get? id = some rt → rt.tokenHash = hash → id = id₀

def revokedAt (id₀ : Uuid) (db : Db) : Option Bool :=
  (db.refreshTokens.get? id₀).map RefreshToken.revoked

/-- What the jobs write: the token is revoked, or another one is stored. -/
def RotationWrite (hash : String) (id₀ : Uuid) : Write → Prop
  | .updateRefreshToken id revoked => id = id₀ ∧ revoked = true
  | .insertRefreshToken _ row => row.tokenHash ≠ hash
  | _ => False

section
variable {hash : String} {id₀ : Uuid} {db : Db}

theorem Stored.apply (h : Stored hash id₀ db) (hw : RotationWrite hash id₀ w) :
    Stored hash id₀ (w.apply db) := by
  obtain ⟨⟨rt₀, hrow, hh⟩, hu⟩ := h
  cases w with
  | updateRefreshToken id revoked =>
    obtain ⟨rfl, rfl⟩ := hw
    refine ⟨⟨{ rt₀ with revoked := true }, ?_, hh⟩, fun id' rt hget hrt => ?_⟩
    · simp [Write.apply, Table.get?_update_self, hrow]
    · simp only [Write.apply, Table.get?_update] at hget
      split at hget
      · assumption
      · exact hu id' rt hget hrt
  | insertRefreshToken id row =>
    refine ⟨⟨rt₀, Table.get?_insert_of_some hrow .., hh⟩, fun id' rt hget hrt => ?_⟩
    rcases Table.get?_of_insert hget with hget | ⟨rfl, rfl⟩
    · exact hu id' rt hget hrt
    · exact absurd hrt hw
  | _ => exact hw.elim

theorem revokedAt_apply_update (h : Stored hash id₀ db) :
    revokedAt id₀ ((Write.updateRefreshToken id₀ true).apply db) = some true := by
  obtain ⟨⟨rt₀, hrow, _⟩, _⟩ := h
  simp [revokedAt, Write.apply, Table.get?_update_self, hrow]

theorem revokedAt_apply_insert (h : Stored hash id₀ db) (id : Uuid) (row : RefreshToken) :
    revokedAt id₀ ((Write.insertRefreshToken id row).apply db) = revokedAt id₀ db := by
  obtain ⟨⟨rt₀, hrow, _⟩, _⟩ := h
  simp only [revokedAt, Write.apply, Table.get?_insert_of_some hrow, hrow]

theorem Stored.view {ws : List Write} (h : Stored hash id₀ db)
    (hws : ∀ w ∈ ws, RotationWrite hash id₀ w) :
    Stored hash id₀ (ws.foldl (fun db w => w.apply db) db) := by
  induction ws generalizing db with
  | nil => exact h
  | cons w ws ih =>
    exact ih (h.apply (hws w List.mem_cons_self)) fun w hw => hws w (List.mem_cons_of_mem _ hw)

/-- The row is revoked after a transaction iff it was before or the transaction revokes it. -/
theorem Stored.revokedAt_view {ws : List Write} (h : Stored hash id₀ db)
    (hws : ∀ w ∈ ws, RotationWrite hash id₀ w) :
    revokedAt id₀ (ws.foldl (fun db w => w.apply db) db) =
      if .updateRefreshToken id₀ true ∈ ws then some true else revokedAt id₀ db := by
  induction ws generalizing db with
  | nil => simp
  | cons w ws ih =>
    have hw := hws w List.mem_cons_self
    rw [List.foldl_cons, ih (h.apply hw) fun w hw => hws w (List.mem_cons_of_mem _ hw)]
    cases w with
    | updateRefreshToken id revoked =>
      obtain ⟨rfl, rfl⟩ := hw
      rw [revokedAt_apply_update h]
      simp
    | insertRefreshToken id row =>
      rw [revokedAt_apply_insert h]
      simp
    | _ => exact hw.elim

end

/-! ## Runs -/

/-- The UPDATE of a refresh finds the stored row still unrevoked. -/
def updatesUnrevoked (w : World) (t : Thread Cmd Session Exn Job Outcome) : Bool :=
  !isRefresh t.req || match nextStatement t.prog with
    | some (.updateRefreshToken id _) => (w.db.refreshTokens.get? id).all (!·.revoked)
    | _ => true

/-- The refresh has revoked the token, or is about to. -/
def Claims (t : Thread Cmd Session Exn Job Outcome) : Prop :=
  isRefresh t.req = true ∧ ((∃ id, .updateRefreshToken id true ∈ t.sess.written) ∨ Committed t.log)

structure RotationInv (hash : String) (id₀ : Uuid) (c : Pool) : Prop where
  stored : Stored hash id₀ c.state.db
  read : ∀ t ∈ c.threads, ∀ id, RowRead hash t.log id → id = id₀
  written : ∀ t ∈ c.threads, ∀ w ∈ t.sess.written, RotationWrite hash id₀ w
  held : ∀ t ∈ c.threads, isRefresh t.req = true →
    .updateRefreshToken id₀ true ∈ t.sess.written → revokedAt id₀ c.state.db = some false
  done : ∀ t ∈ c.threads, isRefresh t.req = true → Committed t.log →
    revokedAt id₀ c.state.db = some true
  single : System.Pairs (fun t t' => ¬ (Claims t ∧ Claims t')) c.threads

theorem RotationInv.start {hash : String} {w₀ : World} (h : Stored hash id₀ w₀.db) :
    RotationInv hash id₀ ⟨w₀, []⟩ where
  stored := h
  read _ ht := absurd ht List.not_mem_nil
  written _ ht := absurd ht List.not_mem_nil
  held _ ht := absurd ht List.not_mem_nil
  done _ ht := absurd ht List.not_mem_nil
  single _ _ _ _ _ hi := nomatch hi

section
variable {E : Env} {hash : String} {id₀ : Uuid} {c c' : Pool} {start : Job → Bool}
  {l : Label Choice Job ℕ}

/-- The revocation of the stored row after a step. -/
theorem RotationInv.revokedAt_step (hc : RotationInv hash id₀ c) (hs : (backend E).Step c l c') :
    revokedAt id₀ c'.state.db = revokedAt id₀ c.state.db ∨
      ∃ i x t, l = .step i x ∧ c.threads[i]? = some t ∧
        .updateRefreshToken id₀ true ∈ t.sess.written ∧ revokedAt id₀ c'.state.db = some true := by
  rcases step_db_cases hs with hdb | ⟨i, x, t, rfl, hi, β, cm, k, hp, hcommit, hdb⟩
  · exact .inl (by rw [hdb])
  · rw [hdb, Session.view, hc.stored.revokedAt_view (hc.written t (List.mem_of_getElem? hi))]
    split
    · exact .inr ⟨i, x, t, rfl, hi, ‹_›, rfl⟩
    · exact .inl rfl

theorem RotationInv.revoked_step (hc : RotationInv hash id₀ c) (hs : (backend E).Step c l c')
    (h : revokedAt id₀ c.state.db = some true) : revokedAt id₀ c'.state.db = some true := by
  rcases hc.revokedAt_step hs with he | ⟨_, _, _, _, _, _, he⟩
  · exact he.trans h
  · exact he

/-- A refresh that is about to execute its UPDATE finds the row unrevoked. -/
theorem RotationInv.unrevoked (hc : RotationInv hash id₀ c)
    {t : Thread Cmd Session Exn Job Outcome} (hg : updatesUnrevoked c.state t = true)
    (hr : isRefresh t.req = true)
      (hn : nextStatement t.prog = some (.updateRefreshToken id₀ true)) :
    revokedAt id₀ c.state.db = some false := by
  obtain ⟨rt, hget, _⟩ := hc.stored.row
  simp only [updatesUnrevoked, hr, hn, hget, Bool.not_true, Bool.false_or, Option.all_some,
    Bool.not_eq_true'] at hg
  simp [revokedAt, hget, hg]

/-- What a job reads: the row of the token, if any. -/
theorem RotationInv.read_step (hc : RotationInv hash id₀ c)
    (hI : ∀ t ∈ c.threads, ∀ {β} {cm : Cmd β} {k}, t.prog = .cmd cm k →
      RotationAssertion hash t.req t.log t.sess.written cm)
    (hs : (backend E).Step c l c') (ht' : t' ∈ c'.threads) (hr : RowRead hash t'.log id') :
    id' = id₀ := by
  obtain ⟨rt, he⟩ := hr
  rcases step_read hs ht' he fun t ht _ _ _ _ hp => (hI t ht hp).2.1 with ⟨t, ht, _, he⟩ | heval
  · exact hc.read t ht id' ⟨rt, he⟩
  · obtain ⟨hget, hhash⟩ := Table.mem_select.mp (List.mem_of_head? heval)
    exact hc.stored.unique id' rt hget (by simpa using hhash)

/-- A statement that a job has executed revokes the token or stores another one. -/
theorem RotationInv.written_step (hc : RotationInv hash id₀ c)
    (hI : ∀ t ∈ c.threads, ∀ {β} {cm : Cmd β} {k}, t.prog = .cmd cm k →
      RotationAssertion hash t.req t.log t.sess.written cm)
    (hs : (backend E).Step c l c') (ht' : t' ∈ c'.threads)
    (hJ : ∀ w ∈ t'.sess.written, TokenWrite hash t'.log w) (hw : w ∈ t'.sess.written) :
    RotationWrite hash id₀ w := by
  obtain ⟨j, hj⟩ := List.getElem?_of_mem ht'
  obtain ⟨t, hold, _, ⟨hw', _⟩ | ⟨_, hviol, _⟩⟩ := step_written hs hj hw
  · exact hc.written t (List.mem_of_getElem? hold) w hw'
  · have hnew := hJ w hw
    cases w with
    | updateRefreshToken id' revoked => exact ⟨hc.read_step hI hs ht' hnew.2, hnew.1⟩
    | insertRefreshToken id' row =>
      rintro rfl
      obtain ⟨rt, hget, hhash⟩ :=
        (hc.stored.view (hc.written t (List.mem_of_getElem? hold))).row
      have htaken : (t.sess.view c.state.db).hashTaken row.tokenHash = true := by
        rw [Db.hashTaken, Bool.not_eq_true', List.isEmpty_eq_false_iff]
        exact List.ne_nil_of_mem (Table.mem_select.mpr ⟨hget, by simpa using hhash⟩)
      cases htaken.symm.trans (Write.insertRefreshToken_violates_iff.mp hviol).2.1
    | _ => exact hnew.elim

/-- While a refresh holds the revocation of the row, no other transaction commits one. -/
theorem RotationInv.held_step (hc : RotationInv hash id₀ c)
    (hlocks : System.Pairs LocksDisjoint c.threads)
    (hok : guarded start updatesUnrevoked c l = true) (hs : (backend E).Step c l c')
    (ht' : t' ∈ c'.threads) (hr : isRefresh t'.req = true)
    (hw : .updateRefreshToken id₀ true ∈ t'.sess.written) :
    revokedAt id₀ c'.state.db = some false := by
  obtain ⟨j, hj⟩ := List.getElem?_of_mem ht'
  obtain ⟨t, hold, _, ⟨hw', hdb | ⟨i, t₁, hij, hi, hdb⟩⟩ | ⟨⟨x, rfl, hnext⟩, _, hdb⟩⟩ :=
    step_written hs hj hw <;>
  have hr : isRefresh t.req = true := hs.req_eq hold hj ▸ hr
  · rw [hdb]
    exact hc.held t (List.mem_of_getElem? hold) hr hw'
  · rw [hdb, Session.view, hc.stored.revokedAt_view (hc.written t₁ (List.mem_of_getElem? hi)),
      if_neg fun hw₁ => ?_]
    · exact hc.held t (List.mem_of_getElem? hold) hr hw'
    · exact hlocks i j t₁ t hij hi hold _ hw₁ _ hw' _ (List.mem_singleton_self _)
        (List.mem_singleton_self _)
  · have hg : updatesUnrevoked c.state t = true := by simpa [guarded, hold] using hok
    rw [hdb]
    exact hc.unrevoked hg hr hnext

/-- A refresh that has committed had committed before, or it commits the revocation now. -/
theorem RotationInv.committed_step (hc : RotationInv hash id₀ c)
    (hI : ∀ t ∈ c.threads, ∀ {β} {cm : Cmd β} {k}, t.prog = .cmd cm k →
      RotationAssertion hash t.req t.log t.sess.written cm)
    (hs : (backend E).Step c l c') (hj : c'.threads[j]? = some t') (hr : isRefresh t'.req = true)
    (hcom : Committed t'.log) : ∃ t, c.threads[j]? = some t ∧ isRefresh t.req = true ∧
      (Committed t.log ∨ (∃ x, l = .step j x) ∧ .updateRefreshToken id₀ true ∈ t.sess.written ∧
        revokedAt id₀ c'.state.db = some true) := by
  obtain ⟨e, he, hcommit⟩ := hcom
  obtain ⟨t, hold, he | ⟨x, rfl, β, cm, k, hp, rfl⟩⟩ := step_log hs hj he <;>
  have hr : isRefresh t.req = true := hs.req_eq hold hj ▸ hr
  · exact ⟨t, hold, hr, .inl ⟨e, he, hcommit⟩⟩
  · have ht := List.mem_of_getElem? hold
    obtain ⟨id, hid⟩ := (hI t ht hp).2.2.1 hcommit hr
    obtain ⟨rfl, _⟩ := hc.written t ht _ hid
    refine ⟨t, hold, hr, .inr ⟨⟨x, rfl⟩, hid, ?_⟩⟩
    rw [hs.state_advance hold hp]
    show revokedAt id (cm.exec x t.sess c.state).2.2.db = some true
    rw [Cmd.exec_of_commit (hI t ht hp).1 hcommit]
    exact (hc.stored.revokedAt_view (hc.written t ht)).trans (if_pos hid)

theorem RotationInv.step (hc : RotationInv hash id₀ c)
    (hlocks : System.Pairs LocksDisjoint c.threads)
    (hlocks' : System.Pairs LocksDisjoint c'.threads)
    (hI : ∀ t ∈ c.threads, ∀ {β} {cm : Cmd β} {k}, t.prog = .cmd cm k →
      RotationAssertion hash t.req t.log t.sess.written cm)
    (hJ : ∀ t ∈ c'.threads, ∀ w ∈ t.sess.written, TokenWrite hash t.log w)
    (hok : guarded start updatesUnrevoked c l = true) (hs : (backend E).Step c l c') :
    RotationInv hash id₀ c' := by
  have hwritten : ∀ t ∈ c'.threads, ∀ w ∈ t.sess.written, RotationWrite hash id₀ w :=
    fun t ht w hw => hc.written_step hI hs ht (hJ t ht) hw
  have hheld : ∀ t ∈ c'.threads, isRefresh t.req = true →
      .updateRefreshToken id₀ true ∈ t.sess.written → revokedAt id₀ c'.state.db = some false :=
    fun t ht => hc.held_step hlocks hok hs ht
  have hdone : ∀ t ∈ c'.threads, isRefresh t.req = true → Committed t.log →
      revokedAt id₀ c'.state.db = some true := by
    intro t' ht' hr hcom
    obtain ⟨j, hj⟩ := List.getElem?_of_mem ht'
    obtain ⟨t, hold, hr, hcom | ⟨_, _, hrevoked⟩⟩ := hc.committed_step hI hs hj hr hcom
    · exact hc.revoked_step hs (hc.done t (List.mem_of_getElem? hold) hr hcom)
    · exact hrevoked
  refine ⟨?_, fun t ht id hr => hc.read_step hI hs ht hr, hwritten, hheld, hdone, ?_⟩
  · rcases step_db_cases hs with hdb | ⟨i, x, t, rfl, hi, β, cm, k, hp, hcommit, hdb⟩
    · exact hdb ▸ hc.stored
    · exact hdb ▸ hc.stored.view (hc.written t (List.mem_of_getElem? hi))
  · rintro i j t t' hij hi hj ⟨⟨hr, hclaim⟩, hr', hclaim'⟩
    have ht := List.mem_of_getElem? hi
    have ht' := List.mem_of_getElem? hj
    rcases hclaim with ⟨id, hw⟩ | hcom <;> rcases hclaim' with ⟨id', hw'⟩ | hcom'
    · -- both hold the lock of the row
      obtain ⟨rfl, _⟩ := hwritten t ht _ hw
      obtain ⟨rfl, _⟩ := hwritten t' ht' _ hw'
      exact hlocks' i j t t' hij hi hj _ hw _ hw' _ (List.mem_singleton_self _)
        (List.mem_singleton_self _)
    · obtain ⟨rfl, _⟩ := hwritten t ht _ hw
      cases (hheld t ht hr hw).symm.trans (hdone t' ht' hr' hcom')
    · obtain ⟨rfl, _⟩ := hwritten t' ht' _ hw'
      cases (hheld t' ht' hr' hw').symm.trans (hdone t ht hr hcom)
    · -- the one that commits now found the row unrevoked, so the other one has not committed
      obtain ⟨u, hu, hr, hcom | ⟨⟨x, hx⟩, hw, _⟩⟩ := hc.committed_step hI hs hi hr hcom <;>
      obtain ⟨u', hu', hr', hcom' | ⟨⟨x', hx'⟩, hw', _⟩⟩ := hc.committed_step hI hs hj hr' hcom'
      · exact hc.single i j u u' hij hu hu' ⟨⟨hr, .inr hcom⟩, hr', .inr hcom'⟩
      · cases (hc.held u' (List.mem_of_getElem? hu') hr' hw').symm.trans
          (hc.done u (List.mem_of_getElem? hu) hr hcom)
      · cases (hc.held u (List.mem_of_getElem? hu) hr hw).symm.trans
          (hc.done u' (List.mem_of_getElem? hu') hr' hcom')
      · cases hx.symm.trans hx'
        exact hij rfl

end

/-- A token that is stored nowhere stays so, and no job finds it. -/
structure Unstored (hash : String) (c : Pool) : Prop where
  none : ∀ id rt, c.state.db.refreshTokens.get? id = some rt → rt.tokenHash ≠ hash
  unread : ∀ t ∈ c.threads, ∀ id, ¬ RowRead hash t.log id

section
variable {E : Env} {hash : String} {c c' : Pool} {l : Label Choice Job ℕ}

theorem TokenWrite.read {log : Log} (h : TokenWrite hash log w) : ∃ id, RowRead hash log id := by
  cases w with
  | updateRefreshToken id => exact ⟨id, h.2⟩
  | insertRefreshToken => exact h
  | _ => exact h.elim

theorem Unstored.step (hc : Unstored hash c)
    (hI : ∀ t ∈ c.threads, ∀ {β} {cm : Cmd β} {k}, t.prog = .cmd cm k →
      RotationAssertion hash t.req t.log t.sess.written cm)
    (hs : (backend E).Step c l c') : Unstored hash c' where
  none := by
    rcases step_db_cases hs with hdb | ⟨i, x, t, rfl, hi, β, cm, k, hp, hcommit, hdb⟩
    · exact hdb ▸ hc.none
    · have ht := List.mem_of_getElem? hi
      have hnil : t.sess.written = [] := by
        refine List.eq_nil_iff_forall_not_mem.mpr fun w hw => ?_
        obtain ⟨id, hr⟩ := ((hI t ht hp).2.2.2.writes w hw).read
        exact hc.unread t ht id hr
      rw [hdb, Session.view, hnil]
      exact hc.none
  unread t' ht' id hr := by
    obtain ⟨rt, he⟩ := hr
    rcases step_read hs ht' he fun t ht _ _ _ _ hp => (hI t ht hp).2.1 with ⟨t, ht, _, he⟩ | heval
    · exact hc.unread t ht id ⟨rt, he⟩
    · obtain ⟨hget, hhash⟩ := Table.mem_select.mp (List.mem_of_head? heval)
      exact hc.none id rt hget (by simpa using hhash)

theorem presents_keeps {token : String} {j : Job} (hj : presents token j = true) :
    Keeps (RotationAssertion (hashToken E token) j)
      (fun log ws _ => RotationLocal (hashToken E token) j log ws) [] [] (j.prog E) := by
  cases j with
  | http r =>
    cases r with
    | user => cases hj
    | auth route draws =>
      cases route with
      | refresh body =>
        obtain rfl : body.refreshToken = token := by simpa [presents] using hj
        exact refreshJob_keeps rfl
      | logout body =>
        obtain rfl : body.refreshToken = token := by simpa [presents] using hj
        exact logoutJob_keeps rfl
      | _ => cases hj
  | _ => cases hj

/-- **A refresh token is rotated once.** In a run of refreshes and logouts of one token in which
the UPDATE of each refresh finds the row still unrevoked, no two jobs answer with a new pair. -/
theorem refresh_rotates_once {token : String} {w₀ : World}
    (hu : ∀ id rt id' rt', w₀.db.refreshTokens.get? id = some rt →
      w₀.db.refreshTokens.get? id' = some rt' → rt.tokenHash = hashToken E token →
      rt'.tokenHash = hashToken E token → id = id')
    (H : (backend E).Run (fun c l => guarded (presents token) updatesUnrevoked c l = true)
      ⟨w₀, []⟩ c) :
    System.Pairs (fun t t' => ¬ (Rotated t.log ∧ Rotated t'.log)) c.threads := by
  have hI {c} (H : (backend E).Run (fun c l => guarded (presents token) updatesUnrevoked c l = true)
      ⟨w₀, []⟩ c) : ∀ t ∈ c.threads, ∀ {β} {cm : Cmd β} {k}, t.prog = .cmd cm k →
      RotationAssertion (hashToken E token) t.req t.log t.sess.written cm :=
    fun t ht _ _ _ hp => run_keeps H (I := RotationAssertion (hashToken E token))
      (fun _ _ hj => (presents_keeps hj).mono fun _ _ _ _ => trivial) ht hp
  have hJ {c} (H : (backend E).Run (fun c l => guarded (presents token) updatesUnrevoked c l = true)
      ⟨w₀, []⟩ c) : ∀ t ∈ c.threads, RotationLocal (hashToken E token) t.req t.log t.sess.written :=
    fun t ht => run_holds H (I := RotationAssertion (hashToken E token))
      (J := RotationLocal (hashToken E token)) (fun _ _ hj => presents_keeps hj)
      (fun h => h.2.2.2) ht
  by_cases hex : ∃ id₀ rt₀, w₀.db.refreshTokens.get? id₀ = some rt₀ ∧
      rt₀.tokenHash = hashToken E token
  · obtain ⟨id₀, rt₀, hget, hhash⟩ := hex
    have hinv : RotationInv (hashToken E token) id₀ c := by
      induction H with
      | refl =>
        exact .start ⟨⟨rt₀, hget, hhash⟩, fun id rt h hh => hu id rt id₀ rt₀ h hget hh hhash⟩
      | step H hok hs ih =>
        exact ih.step (run_locks_disjoint H) (run_locks_disjoint (H.step hok hs)) (hI H)
          (fun t ht => (hJ (H.step hok hs) t ht).writes) hok hs
    intro i j t t' hij hi hj ⟨hr, hr'⟩
    exact hinv.single i j t t' hij hi hj
      ⟨(hJ H t (List.mem_of_getElem? hi)).rotated hr,
        (hJ H t' (List.mem_of_getElem? hj)).rotated hr'⟩
  · have hinv : Unstored (hashToken E token) c := by
      induction H with
      | refl => exact ⟨fun id rt h hh => hex ⟨id, rt, h, hh⟩, fun _ h => absurd h List.not_mem_nil⟩
      | step H hok hs ih => exact ih.step (hI H) hs
    intro i j t t' hij hi hj ⟨hr, _⟩
    have ht := List.mem_of_getElem? hi
    obtain ⟨hrefresh, ⟨id, hid⟩ | hcom⟩ := (hJ H t ht).rotated hr
    · exact hinv.unread t ht id ((hJ H t ht).writes _ hid).2
    · obtain ⟨id, hread⟩ := (hJ H t ht).committed hcom hrefresh
      exact hinv.unread t ht id hread

end

/-! ## One after the other, and at once -/

/-- Alice holds the refresh token `token`. -/
def tokenWorld : World :=
  { Sample.world with
    db := { Sample.world.db with
      refreshTokens := Table.empty.insert 0 ⟨1, "#token", 1000, false⟩ } }

def refreshRequest (n : Nat) : Job := .http (.auth (.refresh ⟨"token"⟩) (Sample.draws n))

/-- The second refresh reads the token after the first has committed, and fails. -/
def refreshTwice : List (Label Choice Job Nat) :=
  .spawn (refreshRequest 1) :: Sample.steps 0 11 ++
  .spawn (refreshRequest 2) :: Sample.steps 1 3

/-- Both read the token before either executes its UPDATE. -/
def refreshRace : List (Label Choice Job Nat) :=
  .spawn (refreshRequest 1) :: .spawn (refreshRequest 2) ::
  Sample.steps 0 7 ++ Sample.steps 1 7 ++ Sample.steps 0 4 ++ Sample.steps 1 4

theorem tokenWorld_unique (id : Uuid) (rt : RefreshToken) (id' : Uuid) (rt' : RefreshToken)
    (h : tokenWorld.db.refreshTokens.get? id = some rt)
    (h' : tokenWorld.db.refreshTokens.get? id' = some rt')
    (_ : rt.tokenHash = hashToken Sample.env "token")
    (_ : rt'.tokenHash = hashToken Sample.env "token") : id = id' := by
  have hkey {id rt} (h : tokenWorld.db.refreshTokens.get? id = some rt) : id = 0 := by
    have hm : (id, rt) ∈ [((0 : Uuid), (⟨1, "#token", 1000, false⟩ : RefreshToken))] :=
      Table.get?_eq_some_iff.mp h
    exact (Prod.mk.inj (List.mem_singleton.mp hm)).1
  rw [hkey h, hkey h']

theorem refreshTwice_rotates_once : ∃ c,
    (backend Sample.env).followIf (guarded (presents "token") updatesUnrevoked) ⟨tokenWorld, []⟩
      refreshTwice = some c ∧ c.threads.length = 2 ∧
    System.Pairs (fun t t' => ¬ (Rotated t.log ∧ Rotated t'.log)) c.threads := by
  have h : ((backend Sample.env).followIf (guarded (presents "token") updatesUnrevoked)
      ⟨tokenWorld, []⟩ refreshTwice).any (·.threads.length = 2) = true := by decide +kernel
  obtain ⟨c, hc, hn⟩ := (Option.any_eq_true _ _).mp h
  exact ⟨c, hc, by simpa using hn, refresh_rotates_once tokenWorld_unique (.of_followIf hc)⟩

theorem refreshRace_rotates_twice : ¬ ∀ c,
    (backend Sample.env).Run (fun c l => guarded (presents "token") (fun _ _ => true) c l = true)
      ⟨tokenWorld, []⟩ c →
    System.Pairs (fun t t' => ¬ (Rotated t.log ∧ Rotated t'.log)) c.threads := by
  intro hevery
  have h : ((backend Sample.env).followIf (guarded (presents "token") fun _ _ => true)
      ⟨tokenWorld, []⟩ refreshRace).any (fun c =>
        c.threads[0]?.any (fun t => t.log.any (sendsTokens ·.cmd)) &&
        c.threads[1]?.any (fun t => t.log.any (sendsTokens ·.cmd))) = true := by decide +kernel
  obtain ⟨c, hc, h⟩ := (Option.any_eq_true _ _).mp h
  obtain ⟨h₀, h₁⟩ := Bool.and_eq_true_iff.mp h
  obtain ⟨t, ht, hr⟩ := (Option.any_eq_true _ _).mp h₀
  obtain ⟨t', ht', hr'⟩ := (Option.any_eq_true _ _).mp h₁
  exact hevery c (.of_followIf hc) 0 1 t t' (by decide) ht ht'
    ⟨List.any_eq_true.mp hr, List.any_eq_true.mp hr'⟩

end Rawbin
