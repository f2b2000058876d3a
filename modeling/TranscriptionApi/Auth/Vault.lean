import TranscriptionApi.Auth.OneActive

/-!
Whose provider tokens a user has.

A callback reads the user by `microsoft_oid` and then updates the tokens by
`user_id`, with other transactions in between. What it has read cannot change: no
statement writes the columns of a user that a first login has set. And the access
token, the refresh token and its expiry go out in one statement, so a row has all
three from one callback, of the identity that its user was made for.
-/

namespace TranscriptionApi.Auth

open Db Lib Python

/-- The columns that a callback writes. -/
structure Stored (who : Identity) (at_ : ℤ) (t : OAuthToken) : Prop where
  access : t.msAccessTokenEncrypted = who.accessToken
  refresh : t.msRefreshTokenEncrypted = who.refreshToken
  expires : t.msAccessExpiresAt = at_ + seconds who.expiresIn

namespace Login

def who : Login → Identity
  | .first who _ _ => who
  | .later who _ _ => who

def time : Login → ℤ
  | .first _ _ at_ => at_
  | .later _ _ at_ => at_

/-- The user that the callback opens a session for. -/
def userId : Login → Uuid
  | .first _ draws _ => draws.userId
  | .later _ user _ => user.id

end Login

/-- A user keeps what a first login has set. -/
def UsersKept (db db' : Database) : Prop :=
  ∀ r ∈ db.users.rows, ∃ r' ∈ db'.users.rows, r'.id = r.id ∧ r'.microsoftOid = r.microsoftOid ∧
    r'.email = r.email ∧ r'.displayName = r.displayName ∧ r'.createdAt = r.createdAt

/-- What a login that commits leaves: its tokens with the user of its identity, and
the rows of the others as they were. -/
structure Deposits (how : Login) (db db' : Database) : Prop where
  own : ∀ t ∈ db'.oauthTokens.rows, t.userId = how.userId → Stored how.who how.time t
  others : ∀ t, t.userId ≠ how.userId → (t ∈ db'.oauthTokens.rows ↔ t ∈ db.oauthTokens.rows)
  user : ∃ r ∈ db'.users.rows, r.id = how.userId ∧ r.microsoftOid = how.who.oid

/-- What a callback has read: no user of the identity, or its row. -/
def Login.Found (db : Database) : Login → Prop
  | .first .. => True
  | .later who user _ => ∃ r ∈ db.users.rows, r.id = user.id ∧ r.microsoftOid = who.oid

section Commits

variable {sha256Hex : Bytes → String} {db db' : Database}

theorem usersKept_refl (db : Database) : UsersKept db db :=
  fun r hr => ⟨r, hr, rfl, rfl, rfl, rfl, rfl⟩

theorem UsersKept.trans {db₁ : Database} (h : UsersKept db db₁) (h₁ : UsersKept db₁ db') :
    UsersKept db db' := by
  intro r hr
  obtain ⟨r₁, hr₁, hid, hoid, hemail, hname, hcreated⟩ := h r hr
  obtain ⟨r₂, hr₂, hid₂, hoid₂, hemail₂, hname₂, hcreated₂⟩ := h₁ r₁ hr₁
  exact ⟨r₂, hr₂, hid₂.trans hid, hoid₂.trans hoid, hemail₂.trans hemail, hname₂.trans hname,
    hcreated₂.trans hcreated⟩

theorem Login.Found.mono {how : Login} (h : how.Found db) (hkept : UsersKept db db') :
    how.Found db' := by
  cases how with
  | first who draws at_ => trivial
  | later who user at_ =>
      obtain ⟨r, hr, hid, hoid⟩ := h
      obtain ⟨r', hr', hid', hoid', -⟩ := hkept r hr
      exact ⟨r', hr', hid'.trans hid, hoid'.trans hoid⟩

theorem mem_update_tokens {t : OAuthToken} {u : Uuid} {who : Identity} {at_ : ℤ}
    (h : accounts.apply (.touchTokens u who at_) db = some db') :
    t ∈ db'.oauthTokens.rows → t.userId = u ∧ Stored who at_ t ∨
      t.userId ≠ u ∧ t ∈ db.oauthTokens.rows := by
  cases h
  intro ht
  obtain ⟨old, hold, rfl⟩ := List.mem_map.mp ht
  dsimp only
  split
  · rename_i howner
    exact .inl ⟨of_decide_eq_true howner, ⟨rfl, rfl, rfl⟩⟩
  · rename_i howner
    exact .inr ⟨fun heq => howner (decide_eq_true heq), hold⟩

theorem usersKept_touchUser {i : Uuid} {at_ : ℤ}
    (h : accounts.apply (.touchUser i at_) db = some db') : UsersKept db db' := by
  cases h
  intro r hr
  refine ⟨_, List.mem_map_of_mem hr, ?_⟩
  dsimp only
  split
  · exact ⟨rfl, rfl, rfl, rfl, rfl⟩
  · exact ⟨rfl, rfl, rfl, rfl, rfl⟩

/-- The COMMIT of a login. -/
theorem deposits_login {how : Login} (hfound : how.Found db)
    (h : accounts.applyAll (how.statements sha256Hex) db = some db') :
    Deposits how db db' ∧ UsersKept db db' := by
  cases how with
  | first who draws at_ =>
      obtain ⟨⟨husers, hnew⟩, ⟨htokens, hnoToken⟩, -⟩ := applyAll_first h
      refine ⟨⟨fun t ht howner => ?_, fun t howner => ?_, userRow who draws at_, ?_, rfl, rfl⟩,
        fun r hr => ⟨r, ?_, rfl, rfl, rfl, rfl, rfl⟩⟩
      · rw [htokens, List.mem_append, List.mem_singleton] at ht
        rcases ht with ht | rfl
        · exact absurd howner (hnoToken t ht)
        · exact ⟨rfl, rfl, rfl⟩
      · rw [htokens, List.mem_append, List.mem_singleton]
        refine or_iff_left ?_
        rintro rfl
        exact howner rfl
      · rw [husers]
        exact List.mem_append_right _ List.mem_cons_self
      · rw [husers]
        exact List.mem_append_left _ hr
  | later who user at_ =>
      obtain ⟨d₁, h₁, h₂⟩ := Option.bind_eq_some_iff.mp h
      rw [Writes.applyAll_singleton] at h₂
      obtain ⟨-, htokens₁, -⟩ := apply_touchUser h₁
      obtain ⟨-, husers₂, -⟩ := apply_touchTokens h₂
      have hkept : UsersKept db db' := by
        have hkept₁ := usersKept_touchUser h₁
        unfold UsersKept at hkept₁ ⊢
        rwa [husers₂]
      refine ⟨⟨fun t ht howner => ?_, fun t howner => ⟨fun ht => ?_, fun ht => ?_⟩, ?_⟩, hkept⟩
      · exact ((mem_update_tokens h₂ ht).resolve_right fun hother => hother.1 howner).2
      · have hmem := ((mem_update_tokens h₂ ht).resolve_left fun hown => howner hown.1).2
        rwa [htokens₁] at hmem
      · rw [← htokens₁] at ht
        cases h₂
        refine List.mem_map.mpr ⟨t, ht, if_neg ?_⟩
        exact fun heq => howner (of_decide_eq_true heq)
      · obtain ⟨r, hr, hid, hoid⟩ := hfound
        obtain ⟨r', hr', hid', hoid', -⟩ := hkept r hr
        exact ⟨r', hr', hid'.trans hid, hoid'.trans hoid⟩

/-- A new bearer concerns neither users nor tokens. -/
theorem tables_regenerated {ws : List AccountWrite} {u : Uuid} {row : McpBearer}
    (hrevokes : Revokes u ws) (h : accounts.applyAll (ws ++ [.insertBearer row]) db = some db') :
    db'.users = db.users ∧ db'.oauthTokens = db.oauthTokens := by
  obtain ⟨husers, htokens, -⟩ := applyAll_regenerated hrevokes h
  exact ⟨husers, htokens⟩

end Commits

/-! ### Every run -/

/-- A row of tokens is one from the start, or all of it is from a callback `C` of the
identity that its user was made for. -/
def Traced (C : Identity → ℤ → Prop) (start db : Database) (t : OAuthToken) : Prop :=
  t ∈ start.oauthTokens.rows ∨ ∃ who at_, C who at_ ∧ Stored who at_ t ∧
    ∃ r ∈ db.users.rows, r.id = t.userId ∧ r.microsoftOid = who.oid

structure Vaulted (sha256Hex : Bytes → String) (C : Identity → ℤ → Prop) (start : Database)
    (s : Traffic) : Prop where
  consistent : Consistent sha256Hex s
  logins : ∀ p how left, s.requests p = some (.login how left) →
    C how.who how.time ∧ how.Found s.tables.committed
  tokens : ∀ t ∈ s.tables.committed.oauthTokens.rows, Traced C start s.tables.committed t
  kept : UsersKept start s.tables.committed

/-- The COMMIT of a login, and what it leaves. -/
def Vaults (p : ℕ) (how : Login) (s : Traffic) (e : TrafficEvent) (s' : Traffic) : Prop :=
  Commits p (.redirect how) s e s' ∧ Deposits how s.tables.committed s'.tables.committed

/-- The COMMIT of a login leaves its own tokens, and no other step writes any. -/
def VaultStep (s : Traffic) (e : TrafficEvent) (s' : Traffic) : Prop :=
  (∃ how, Vaults e.actor how s e s') ∨
    s'.tables.committed.oauthTokens = s.tables.committed.oauthTokens

section Runs

variable {sha256Hex : Bytes → String} {C : Identity → ℤ → Prop} {start : Database}
  {s s' : Traffic} {p : ℕ} {e : TrafficEvent}

theorem Traced.mono {db db' : Database} {t : OAuthToken} (h : Traced C start db t)
    (hkept : UsersKept db db') : Traced C start db' t := by
  refine h.imp_right ?_
  rintro ⟨who, at_, hC, hstored, r, hr, hid, hoid⟩
  obtain ⟨r', hr', hid', hoid', -⟩ := hkept r hr
  exact ⟨who, at_, hC, hstored, r', hr', hid'.trans hid, hoid'.trans hoid⟩

theorem phase_of_update {requests : ℕ → Option RequestPhase} {phase phase' : RequestPhase}
    (h : Function.update requests p (some phase) p = some phase') : phase = phase' := by
  rw [Function.update_self] at h
  exact Option.some.inj h

theorem login_of_execute {w : AccountWrite} {phase violated : RequestPhase} {how : Login}
    {left : List AccountWrite} (h : s.execute p w phase violated = some s')
    (hp : s'.requests p = some (.login how left)) :
    phase = .login how left ∨ violated = .login how left := by
  obtain ⟨result, -, rfl⟩ := Option.map_eq_some_iff.mp h
  cases result with
  | none => exact .inr (phase_of_update hp)
  | some tables => exact .inl (phase_of_update hp)

theorem login_of_turn {at_ : ℤ} {draw : BearerDraw} {phase : RequestPhase} {how : Login}
    {left : List AccountWrite} (h : turn sha256Hex s p at_ draw phase = some s')
    (hp : s'.requests p = some (.login how left)) : ∃ left₀, phase = .login how left₀ := by
  cases phase with
  | revoke u last =>
      cases h
      cases phase_of_update hp
  | revoking u last found =>
      cases found with
      | nil =>
          rcases login_of_execute h hp with hphase | hphase
          · cases hphase
          · split at hphase
            · cases hphase
            · cases hphase
      | cons i found =>
          simp only [turn] at h
          split at h
          · split at h
            · cases h
              cases phase_of_update hp
            · cases h
              cases phase_of_update hp
          · cases h
  | committed answer =>
      cases h
      cases phase_of_update hp
  | regenerated u plaintext =>
      obtain ⟨tables, -, rfl⟩ := Option.map_eq_some_iff.mp h
      cases phase_of_update hp
  | login how₀ left₀ =>
      cases left₀ with
      | nil =>
          obtain ⟨tables, -, rfl⟩ := Option.map_eq_some_iff.mp h
          cases phase_of_update hp
      | cons w left₀ =>
          rcases login_of_execute h hp with hphase | hphase
          · cases hphase
            exact ⟨_, rfl⟩
          · cases hphase
  | ended answer => cases h

/-- A request that logs in has done so before, or starts with what it finds. -/
theorem login_of_step (hstep : (traffic sha256Hex).step s e = some s') {how : Login}
    {left : List AccountWrite} (hp : s'.requests p = some (.login how left)) :
    (∃ left₀, s.requests p = some (.login how left₀)) ∨
      ∃ draws, e = .callback p how.time how.who draws ∧ how.Found s.tables.committed := by
  by_cases hactor : p = e.actor
  · subst hactor
    replace hstep : s.step sha256Hex e = some s' := hstep
    cases e with
    | callback p at_ who draws =>
        simp only [Traffic.step] at hstep
        split at hstep
        · cases hstep
          have hlogin := phase_of_update hp
          refine .inr ⟨draws, ?_⟩
          split at hlogin
          · rename_i user others hselect
            cases hlogin
            have huser : user ∈ s.tables.committed.users.select fun r => r.microsoftOid = who.oid :=
              hselect ▸ List.mem_cons_self
            obtain ⟨hmem, hoid⟩ := List.mem_filter.mp huser
            exact ⟨rfl, user, hmem, rfl, of_decide_eq_true hoid⟩
          · cases hlogin
            exact ⟨rfl, trivial⟩
        · cases hstep
    | regenerate p u =>
        simp only [Traffic.step] at hstep
        split at hstep
        · cases hstep
          cases phase_of_update hp
        · cases hstep
    | turn p at_ draw =>
        obtain ⟨phase, hphase, hturn⟩ := Option.bind_eq_some_iff.mp hstep
        obtain ⟨left₀, rfl⟩ := login_of_turn hturn hp
        exact .inl ⟨left₀, hphase⟩
    | fail p =>
        simp only [Traffic.step] at hstep
        split at hstep
        · cases hstep
        · cases hstep
        · cases hstep
          cases phase_of_update hp
    | lostCommit p =>
        obtain ⟨answer, -, hcommit⟩ := Option.bind_eq_some_iff.mp hstep
        obtain ⟨tables, -, rfl⟩ := Option.map_eq_some_iff.mp hcommit
        cases phase_of_update hp
  · rw [requests_of_ne (step_effect hstep) hactor] at hp
    exact .inl ⟨left, hp⟩

/-- What the COMMIT of a login does to users and tokens. -/
theorem deposits_of_commit (h : Vaulted sha256Hex C start s) {how : Login} {d : Database}
    (hp : s.requests p = some (.login how [])) (hview : s.tables.view accounts p = some d) :
    Deposits how s.tables.committed d ∧ UsersKept s.tables.committed d := by
  have hshape := h.consistent.shape p
  rw [hp] at hshape
  replace hshape : s.tables.pending p ++ [] = how.statements sha256Hex := hshape
  rw [List.append_nil] at hshape
  rw [Transactions.view, hshape] at hview
  exact deposits_login (h.logins p how [] hp).2 hview

theorem tables_of_step (h : Vaulted sha256Hex C start s)
    (hstep : (traffic sha256Hex).step s e = some s') :
    UsersKept s.tables.committed s'.tables.committed ∧
      ((∃ how, C how.who how.time ∧ Vaults e.actor how s e s') ∨
        s'.tables.committed.oauthTokens = s.tables.committed.oauthTokens) := by
  have heffect := step_effect hstep
  have hcommits {answer : AuthAnswer} (hanswer : (s.requests e.actor).bind RequestPhase.commits =
      some answer) (hview : s.tables.view accounts e.actor = some s'.tables.committed) :
      Commits e.actor answer s e s' := ⟨rfl, hanswer, hview⟩
  generalize e.actor = p at heffect hcommits
  cases heffect with
  | commits answer phase d hanswer hphase hview =>
      have hcommit := hcommits hanswer hview
      obtain ⟨phase', hp, hphase'⟩ := Option.bind_eq_some_iff.mp hanswer
      rcases RequestPhase.commits_cases hphase' with ⟨u, plaintext, rfl, rfl⟩ | ⟨how, rfl, rfl⟩
      · have hshape := h.consistent.shape p
        rw [hp] at hshape
        obtain ⟨vs, i, at_, hrevokes, hpending⟩ := hshape
        rw [Transactions.view, hpending] at hview
        obtain ⟨husers, htokens⟩ := tables_regenerated hrevokes hview
        refine ⟨fun r hr => ⟨r, ?_, rfl, rfl, rfl, rfl, rfl⟩, .inr htokens⟩
        rwa [husers]
      · obtain ⟨hdeposits, hkept⟩ := deposits_of_commit h hp hview
        exact ⟨hkept, .inl ⟨how, (h.logins p how [] hp).1, hcommit, hdeposits⟩⟩
  | _ => exact ⟨usersKept_refl _, .inr rfl⟩

theorem vaulted_step (h : Vaulted sha256Hex C start s)
    (hC : ∀ p at_ who draws, e = .callback p at_ who draws → C who at_)
    (hstep : (traffic sha256Hex).step s e = some s') : Vaulted sha256Hex C start s' := by
  obtain ⟨hkept, hcommit⟩ := tables_of_step h hstep
  refine ⟨consistent_step h.consistent hstep, fun p how left hp => ?_, fun t ht => ?_,
    h.kept.trans hkept⟩
  · rcases login_of_step hstep hp with ⟨left₀, hbefore⟩ | ⟨draws, rfl, hfound⟩
    · obtain ⟨hpresented, hfound⟩ := h.logins p how left₀ hbefore
      exact ⟨hpresented, hfound.mono hkept⟩
    · exact ⟨hC _ _ _ _ rfl, hfound.mono hkept⟩
  · rcases hcommit with ⟨how, hpresented, -, hdeposits⟩ | htokens
    · by_cases howner : t.userId = how.userId
      · obtain ⟨r, hr, hid, hoid⟩ := hdeposits.user
        exact .inr ⟨how.who, how.time, hpresented, hdeposits.own t ht howner, r, hr,
          hid.trans howner.symm, hoid⟩
      · exact (h.tokens t ((hdeposits.others t howner).mp ht)).mono hkept
    · rw [htokens] at ht
      exact (h.tokens t ht).mono hkept

theorem vaulted_quiet (sha256Hex : Bytes → String) (C : Identity → ℤ → Prop) (h : Quiet s) :
    Vaulted sha256Hex C s.tables.committed s where
  consistent := consistent_quiet sha256Hex h
  logins := fun p how left hp => by
    rw [h.requests p] at hp
    cases hp
  tokens := fun _ ht => .inl ht
  kept := usersKept_refl _

/-- The run has a callback with this identity. -/
def Presented (es : List TrafficEvent) (who : Identity) (at_ : ℤ) : Prop :=
  ∃ p draws, .callback p at_ who draws ∈ es

/-- However the requests interleave, from a state in which nothing is in flight: a
committed row of provider tokens is from the start or has its access token, its refresh
token and its expiry from one and the same callback, and its user is the one of the
identity that callback came with; a user keeps its id, its oid, its email and its name;
only the COMMIT of a callback writes tokens, its own and nobody else's, whatever the
callback then comes to; and one that has answered 302 has made that COMMIT. -/
theorem vault_of_run {t : Traffic} {es : List TrafficEvent} (hquiet : Quiet s)
    (hrun : (traffic sha256Hex).run s es = some t) :
    (∀ row ∈ t.tables.committed.oauthTokens.rows,
      Traced (Presented es) s.tables.committed t.tables.committed row) ∧
    UsersKept s.tables.committed t.tables.committed ∧
    (traffic sha256Hex).Along VaultStep s es ∧
    ∀ p how, t.requests p = some (.ended (.redirect how)) →
      (traffic sha256Hex).Once (Untouched p) (Vaults p how) s es := by
  have hvaulted := vaulted_quiet sha256Hex (Presented es) hquiet
  have hpresented : (traffic sha256Hex).Along (fun _ e _ => ∀ p at_ who draws,
      e = .callback p at_ who draws → Presented es who at_) s es := by
    refine System.along_of_forall _ fun e he => ?_
    rintro p at_ who draws rfl
    exact ⟨p, draws, he⟩
  have hkeep : ∀ s₁ e s₂, Vaulted sha256Hex (Presented es) s.tables.committed s₁ →
      (∀ p at_ who draws, e = .callback p at_ who draws → Presented es who at_) →
      (traffic sha256Hex).step s₁ e = some s₂ →
      Vaulted sha256Hex (Presented es) s.tables.committed s₂ :=
    fun _ _ _ h hC hstep => vaulted_step h hC hstep
  have hfinal := System.invariant_along _ hkeep hvaulted hpresented hrun
  refine ⟨hfinal.tokens, hfinal.kept, ?_, fun p how hp => ?_⟩
  · refine System.along_of_step _ hkeep (fun s₁ e s₂ h hC hstep => ?_) hvaulted hpresented
    refine (tables_of_step h hstep).2.imp_left ?_
    rintro ⟨how, -, hvaults⟩
    exact ⟨how, hvaults⟩
  · have honce := once_of_ended (open_of_none (hquiet.requests p)) hrun (by simp) hp
    refine honce.mono _ (I := Vaulted sha256Hex (fun _ _ => True) s.tables.committed)
      (fun _ _ _ h hstep => vaulted_step h (fun _ _ _ _ _ => trivial) hstep)
      (fun s₁ e s₂ h hstep hcommit => ⟨hcommit, ?_⟩) (vaulted_quiet _ _ hquiet)
    obtain ⟨phase, hphase, hcommits⟩ := Option.bind_eq_some_iff.mp hcommit.2.1
    rcases RequestPhase.commits_cases hcommits with ⟨u, plaintext, rfl, heq⟩ | ⟨how', rfl, heq⟩
    · cases heq
    · cases heq
      exact (deposits_of_commit h hphase hcommit.2.2).1

/-- One user logs in from two browsers; both callbacks have read its row before either
of them writes. The second one does not hear of its COMMIT. -/
def twoLogins : List TrafficEvent :=
  [.callback 0 5 ⟨1, "user@x", "User", [1], [2], 60⟩ ⟨7, 8, 9, drawA.bearer⟩,
    .callback 1 6 ⟨1, "user@x", "User", [3], [4], 60⟩ ⟨10, 11, 12, drawB.bearer⟩,
    .turn 0 7 drawA, .turn 0 7 drawA, .turn 0 7 drawA, .turn 0 7 drawA,
    .turn 1 8 drawB, .turn 1 8 drawB, .lostCommit 1]

/-- The first callback answers 302, and the second one's tokens stay. -/
theorem vault_of_run_twoLogins : ∃ t, (traffic plainHash).run oneUser twoLogins = some t ∧
    t.tables.committed.oauthTokens.rows.map OAuthToken.msAccessTokenEncrypted = [[3]] ∧
    (∀ row ∈ t.tables.committed.oauthTokens.rows,
      Traced (Presented twoLogins) oneUser.tables.committed t.tables.committed row) ∧
    ∃ how, (traffic plainHash).Once (Untouched 0) (Vaults 0 how) oneUser twoLogins := by
  have hend : ((traffic plainHash).run oneUser twoLogins).map (fun t => (t.requests 0,
      t.tables.committed.oauthTokens.rows.map OAuthToken.msAccessTokenEncrypted)) =
      some (some (.ended (.redirect (.later ⟨1, "user@x", "User", [1], [2], 60⟩
        ⟨1, 1, "user@x", "User", 0, 0⟩ 5))), [[3]]) := by decide +kernel
  obtain ⟨t, ht, heq⟩ := Option.map_eq_some_iff.mp hend
  obtain ⟨hp, htokens⟩ := Prod.mk.inj heq
  obtain ⟨htraced, -, -, hredirect⟩ := vault_of_run quiet_oneUser ht
  exact ⟨t, ht, htokens, htraced, _, hredirect 0 _ hp⟩

end Runs

end TranscriptionApi.Auth
