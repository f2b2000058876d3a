import TranscriptionApi.Auth.Concurrent

/-!
What the constraints have found for a pending write.

A check runs on what the transaction sees, the committed rows under its own
writes. What it says of the committed rows, `Ready`, concerns only the keys that
the write takes, so no other transaction disturbs it, `stable_ready`.
-/

namespace TranscriptionApi.Auth

open Db Lib Python

/-! ### One write -/

theorem revokeBearer_id (i u : Uuid) (at_ : ℤ) (b : McpBearer) :
    (revokeBearer i u at_ b).id = b.id := by
  unfold revokeBearer
  split
  · rfl
  · rfl

theorem revokeBearer_userId (i u : Uuid) (at_ : ℤ) (b : McpBearer) :
    (revokeBearer i u at_ b).userId = b.userId := by
  unfold revokeBearer
  split
  · rfl
  · rfl

theorem revokeBearer_tokenHash (i u : Uuid) (at_ : ℤ) (b : McpBearer) :
    (revokeBearer i u at_ b).tokenHash = b.tokenHash := by
  unfold revokeBearer
  split
  · rfl
  · rfl

theorem revokeBearer_of_revoked (i u : Uuid) (at_ : ℤ) {b : McpBearer} (h : b.revokedAt ≠ none) :
    revokeBearer i u at_ b = b := if_neg fun hb => h hb.2.2

theorem revokeBearer_of_ne (i : Uuid) (at_ : ℤ) {u : Uuid} {b : McpBearer} (h : b.userId ≠ u) :
    revokeBearer i u at_ b = b := if_neg fun hb => h hb.2.1

/-- A bearer that is active afterwards was so, and is another one. -/
theorem revokeBearer_active {i u : Uuid} {at_ : ℤ} {b : McpBearer}
    (h : (revokeBearer i u at_ b).revokedAt = none) :
    b.revokedAt = none ∧ ¬ (b.id = i ∧ b.userId = u) := by
  unfold revokeBearer at h
  split at h
  · cases h
  · rename_i hother
    exact ⟨h, fun hb => hother ⟨hb.1, hb.2, h⟩⟩

section Apply

variable {db db' : Database}

theorem apply_insertUser {row : User}
    (h : accounts.apply (.insertUser row) db = some db') :
    db'.users.rows = db.users.rows ++ [row] ∧ db'.oauthTokens = db.oauthTokens ∧
      db'.mcpBearers = db.mcpBearers ∧ ∀ r ∈ db.users.rows,
        r.id ≠ row.id ∧ r.microsoftOid ≠ row.microsoftOid ∧ r.email ≠ row.email := by
  obtain ⟨t, ht, rfl⟩ := Option.map_eq_some_iff.mp h
  unfold insertUser at ht
  split at ht
  · cases ht
  · rename_i hfree
    obtain ⟨hrows, hkey⟩ := Table.insert?_eq_some ht
    refine ⟨hrows, rfl, rfl, fun r hr => ⟨Table.find?_eq_none_iff.mp hkey r hr, ?_⟩⟩
    rw [List.any_eq_true] at hfree
    have hclash : ¬ (r.microsoftOid = row.microsoftOid ∨ r.email = row.email) :=
      fun hclash => hfree ⟨r, hr, decide_eq_true hclash⟩
    exact not_or.mp hclash

theorem apply_insertOAuthToken {row : OAuthToken}
    (h : accounts.apply (.insertOAuthToken row) db = some db') :
    db'.oauthTokens.rows = db.oauthTokens.rows ++ [row] ∧ db'.users = db.users ∧
      db'.mcpBearers = db.mcpBearers ∧ ∀ r ∈ db.oauthTokens.rows,
        r.id ≠ row.id ∧ r.userId ≠ row.userId := by
  obtain ⟨t, ht, rfl⟩ := Option.map_eq_some_iff.mp h
  unfold insertOAuthToken at ht
  split at ht
  · cases ht
  · rename_i hfree
    obtain ⟨hrows, hkey⟩ := Table.insert?_eq_some ht
    refine ⟨hrows, rfl, rfl, fun r hr => ⟨Table.find?_eq_none_iff.mp hkey r hr, fun hclash => ?_⟩⟩
    rw [List.any_eq_true] at hfree
    exact hfree ⟨r, hr, decide_eq_true hclash⟩

theorem apply_insertBearer {row : McpBearer}
    (h : accounts.apply (.insertBearer row) db = some db') :
    db'.mcpBearers.rows = db.mcpBearers.rows ++ [row] ∧ db'.users = db.users ∧
      db'.oauthTokens = db.oauthTokens ∧ ∀ r ∈ db.mcpBearers.rows,
        r.id ≠ row.id ∧ r.tokenHash ≠ row.tokenHash ∧
          ¬ (r.userId = row.userId ∧ r.revokedAt = none ∧ row.revokedAt = none) := by
  obtain ⟨t, ht, rfl⟩ := Option.map_eq_some_iff.mp h
  obtain ⟨hrows, hfree⟩ := insertBearer_eq_some ht
  refine ⟨hrows, rfl, rfl, fun r hr => ⟨?_, hfree r hr⟩⟩
  unfold insertBearer at ht
  split at ht
  · cases ht
  · exact Table.find?_eq_none_iff.mp (Table.insert?_eq_some ht).2 r hr

theorem apply_revoke {i u : Uuid} {at_ : ℤ}
    (h : accounts.apply (.revoke i u at_) db = some db') :
    db'.mcpBearers.rows = db.mcpBearers.rows.map (revokeBearer i u at_) ∧
      db'.users = db.users ∧ db'.oauthTokens = db.oauthTokens := by
  cases h
  refine ⟨?_, rfl, rfl⟩
  simp [Table.update]

/-- An UPDATE leaves the columns with unique indexes alone. -/
theorem apply_touchUser {i : Uuid} {at_ : ℤ}
    (h : accounts.apply (.touchUser i at_) db = some db') :
    (∃ f, db'.users.rows = db.users.rows.map f ∧ ∀ r, (f r).id = r.id ∧
      (f r).microsoftOid = r.microsoftOid ∧ (f r).email = r.email) ∧
      db'.oauthTokens = db.oauthTokens ∧ db'.mcpBearers = db.mcpBearers := by
  cases h
  refine ⟨⟨_, rfl, fun r => ?_⟩, rfl, rfl⟩
  split
  · exact ⟨rfl, rfl, rfl⟩
  · exact ⟨rfl, rfl, rfl⟩

theorem apply_touchTokens {u : Uuid} {who : Identity} {at_ : ℤ}
    (h : accounts.apply (.touchTokens u who at_) db = some db') :
    (∃ f, db'.oauthTokens.rows = db.oauthTokens.rows.map f ∧ ∀ r, (f r).id = r.id ∧
      (f r).userId = r.userId) ∧ db'.users = db.users ∧ db'.mcpBearers = db.mcpBearers := by
  cases h
  refine ⟨⟨_, rfl, fun r => ?_⟩, rfl, rfl⟩
  split
  · exact ⟨rfl, rfl⟩
  · exact ⟨rfl, rfl⟩

end Apply

/-! ### What the checks have found -/

/-- What is known of a pending write, given the other writes of its
transaction, `own`. -/
def Ready (own : List AccountWrite) (db : Database) : AccountWrite → Prop
  | .insertUser row => ∀ r ∈ db.users.rows,
      r.id ≠ row.id ∧ r.microsoftOid ≠ row.microsoftOid ∧ r.email ≠ row.email
  | .insertOAuthToken row => ∀ r ∈ db.oauthTokens.rows, r.id ≠ row.id ∧ r.userId ≠ row.userId
  | .insertBearer row => ∀ r ∈ db.mcpBearers.rows, r.id ≠ row.id ∧ r.tokenHash ≠ row.tokenHash ∧
      -- the bearer that stood in the way is one the transaction revokes
      (r.userId = row.userId → r.revokedAt = none → row.revokedAt = none →
        ∃ at_, AccountWrite.revoke r.id r.userId at_ ∈ own)
  | _ => True

/-- Every row is still there, as far as the unique constraints look at it. -/
structure Carried (own : List AccountWrite) (db db' : Database) : Prop where
  users : ∀ r ∈ db.users.rows, ∃ r' ∈ db'.users.rows,
    r'.id = r.id ∧ r'.microsoftOid = r.microsoftOid ∧ r'.email = r.email
  tokens : ∀ r ∈ db.oauthTokens.rows, ∃ r' ∈ db'.oauthTokens.rows,
    r'.id = r.id ∧ r'.userId = r.userId
  bearers : ∀ r ∈ db.mcpBearers.rows, ∃ r' ∈ db'.mcpBearers.rows,
    r'.id = r.id ∧ r'.tokenHash = r.tokenHash ∧ r'.userId = r.userId ∧
      (r.revokedAt = none → r'.revokedAt = none ∨
        ∃ at_, AccountWrite.revoke r.id r.userId at_ ∈ own)

theorem carried_refl (own : List AccountWrite) (db : Database) : Carried own db db where
  users := fun r hr => ⟨r, hr, rfl, rfl, rfl⟩
  tokens := fun r hr => ⟨r, hr, rfl, rfl⟩
  bearers := fun r hr => ⟨r, hr, rfl, rfl, rfl, .inl⟩

theorem Carried.trans {own : List AccountWrite} {db db₁ db₂ : Database} (h₁ : Carried own db db₁)
    (h₂ : Carried own db₁ db₂) : Carried own db db₂ where
  users := fun r hr => by
    obtain ⟨r₁, hr₁, hid₁, hoid₁, hemail₁⟩ := h₁.users r hr
    obtain ⟨r₂, hr₂, hid₂, hoid₂, hemail₂⟩ := h₂.users r₁ hr₁
    exact ⟨r₂, hr₂, hid₂.trans hid₁, hoid₂.trans hoid₁, hemail₂.trans hemail₁⟩
  tokens := fun r hr => by
    obtain ⟨r₁, hr₁, hid₁, huser₁⟩ := h₁.tokens r hr
    obtain ⟨r₂, hr₂, hid₂, huser₂⟩ := h₂.tokens r₁ hr₁
    exact ⟨r₂, hr₂, hid₂.trans hid₁, huser₂.trans huser₁⟩
  bearers := fun r hr => by
    obtain ⟨r₁, hr₁, hid₁, hhash₁, huser₁, hactive₁⟩ := h₁.bearers r hr
    obtain ⟨r₂, hr₂, hid₂, hhash₂, huser₂, hactive₂⟩ := h₂.bearers r₁ hr₁
    refine ⟨r₂, hr₂, hid₂.trans hid₁, hhash₂.trans hhash₁, huser₂.trans huser₁, fun hr => ?_⟩
    rcases hactive₁ hr with hr₁ | hrevoked
    · rw [hid₁, huser₁] at hactive₂
      exact hactive₂ hr₁
    · exact .inr hrevoked

theorem Carried.mono {own own' : List AccountWrite} {db db' : Database}
    (hsub : ∀ w ∈ own, w ∈ own') (h : Carried own db db') : Carried own' db db' where
  users := h.users
  tokens := h.tokens
  bearers := fun r hr => by
    obtain ⟨r', hr', hid, hhash, huser, hactive⟩ := h.bearers r hr
    refine ⟨r', hr', hid, hhash, huser, fun hr => ?_⟩
    exact (hactive hr).imp_right fun ⟨at_, hmem⟩ => ⟨at_, hsub _ hmem⟩

theorem carried_apply {w : AccountWrite} {db db' : Database}
    (h : accounts.apply w db = some db') : Carried [w] db db' := by
  cases w with
  | insertUser row =>
      obtain ⟨hrows, htokens, hbearers, -⟩ := apply_insertUser h
      refine ⟨fun r hr => ⟨r, ?_, rfl, rfl, rfl⟩, ?_, ?_⟩
      · rw [hrows]
        exact List.mem_append_left _ hr
      · rw [htokens]
        exact (carried_refl [] db).tokens
      · rw [hbearers]
        exact (carried_refl _ db).bearers
  | insertOAuthToken row =>
      obtain ⟨hrows, husers, hbearers, -⟩ := apply_insertOAuthToken h
      refine ⟨?_, fun r hr => ⟨r, ?_, rfl, rfl⟩, ?_⟩
      · rw [husers]
        exact (carried_refl [] db).users
      · rw [hrows]
        exact List.mem_append_left _ hr
      · rw [hbearers]
        exact (carried_refl _ db).bearers
  | insertBearer row =>
      obtain ⟨hrows, husers, htokens, -⟩ := apply_insertBearer h
      refine ⟨?_, ?_, fun r hr => ⟨r, ?_, rfl, rfl, rfl, .inl⟩⟩
      · rw [husers]
        exact (carried_refl [] db).users
      · rw [htokens]
        exact (carried_refl [] db).tokens
      · rw [hrows]
        exact List.mem_append_left _ hr
  | revoke i u at_ =>
      obtain ⟨hrows, husers, htokens⟩ := apply_revoke h
      refine ⟨?_, ?_, fun r hr => ?_⟩
      · rw [husers]
        exact (carried_refl [] db).users
      · rw [htokens]
        exact (carried_refl [] db).tokens
      · refine ⟨revokeBearer i u at_ r, ?_, revokeBearer_id .., revokeBearer_tokenHash ..,
          revokeBearer_userId .., fun hactive => ?_⟩
        · rw [hrows]
          exact List.mem_map_of_mem hr
        · unfold revokeBearer
          split
          · rename_i hmatch
            obtain ⟨rfl, rfl, -⟩ := hmatch
            exact .inr ⟨at_, List.mem_singleton_self _⟩
          · exact .inl hactive
  | touchUser i at_ =>
      obtain ⟨⟨f, hrows, hf⟩, htokens, hbearers⟩ := apply_touchUser h
      refine ⟨fun r hr => ⟨f r, ?_, hf r⟩, ?_, ?_⟩
      · rw [hrows]
        exact List.mem_map_of_mem hr
      · rw [htokens]
        exact (carried_refl [] db).tokens
      · rw [hbearers]
        exact (carried_refl _ db).bearers
  | touchTokens u who at_ =>
      obtain ⟨⟨f, hrows, hf⟩, husers, hbearers⟩ := apply_touchTokens h
      refine ⟨?_, fun r hr => ⟨f r, ?_, hf r⟩, ?_⟩
      · rw [husers]
        exact (carried_refl [] db).users
      · rw [hrows]
        exact List.mem_map_of_mem hr
      · rw [hbearers]
        exact (carried_refl _ db).bearers

theorem carried_applyAll {ws : List AccountWrite} {db db' : Database}
    (h : accounts.applyAll ws db = some db') : Carried ws db db' := by
  refine accounts.applyAll_rel (R := Carried) (carried_refl []) ?_ h
  intro w ws d d₁ d₂ hw hws
  apply ((carried_apply hw).mono ?_).trans (hws.mono fun v hv => List.mem_cons_of_mem w hv)
  intro v hv
  rw [List.mem_singleton.mp hv]
  exact List.mem_cons_self

/-- A check passed on what the transaction sees says so much of the committed
state. -/
theorem ready_of_apply {own : List AccountWrite} {w : AccountWrite} {db d d' : Database}
    (hview : accounts.applyAll own db = some d) (h : accounts.apply w d = some d') :
    Ready (own ++ [w]) db w := by
  have hcarried := carried_applyAll hview
  cases w with
  | insertUser row =>
      intro r hr
      obtain ⟨r', hr', hid, hoid, hemail⟩ := hcarried.users r hr
      rw [← hid, ← hoid, ← hemail]
      exact (apply_insertUser h).2.2.2 r' hr'
  | insertOAuthToken row =>
      intro r hr
      obtain ⟨r', hr', hid, huser⟩ := hcarried.tokens r hr
      rw [← hid, ← huser]
      exact (apply_insertOAuthToken h).2.2.2 r' hr'
  | insertBearer row =>
      intro r hr
      obtain ⟨r', hr', hid, hhash, huser, hactive⟩ := hcarried.bearers r hr
      obtain ⟨hid', hhash', hclash⟩ := (apply_insertBearer h).2.2.2 r' hr'
      refine ⟨hid ▸ hid', hhash ▸ hhash', fun hown hr hrow => ?_⟩
      rcases hactive hr with hr' | ⟨at_, hmem⟩
      · exact absurd ⟨huser.trans hown, hr', hrow⟩ hclash
      · exact ⟨at_, List.mem_append_left _ hmem⟩
  | _ => trivial

/-! A write of another transaction with other keys does not disturb a check. -/

section Undisturbed

variable {own : List AccountWrite} {d d' : Database} {w : AccountWrite}

theorem ready_insertUser {row : User}
    (hkeys : ∀ k ∈ (AccountWrite.insertUser row).keys, k ∉ w.keys)
    (hready : Ready own d (.insertUser row)) (happly : accounts.apply w d = some d') :
    Ready own d' (.insertUser row) := by
  cases w with
  | insertUser row' =>
      rw [Ready, (apply_insertUser happly).1, List.forall_mem_append]
      refine ⟨hready, fun r hr => ?_⟩
      rw [List.mem_singleton.mp hr]
      have hid := hkeys (.user row.id) (by simp [AccountWrite.keys])
      have hoid := hkeys (.oid row.microsoftOid) (by simp [AccountWrite.keys])
      have hemail := hkeys (.email row.email) (by simp [AccountWrite.keys])
      simp only [AccountWrite.keys, List.mem_cons, Key.user.injEq, Key.oid.injEq,
        Key.email.injEq, reduceCtorEq, List.not_mem_nil, or_false, false_or] at hid hoid hemail
      exact ⟨Ne.symm hid, Ne.symm hoid, Ne.symm hemail⟩
  | touchUser i at_ =>
      obtain ⟨⟨f, hrows, hf⟩, -, -⟩ := apply_touchUser happly
      rw [Ready, hrows, List.forall_mem_map]
      intro r hr
      rw [(hf r).1, (hf r).2.1, (hf r).2.2]
      exact hready r hr
  | insertOAuthToken row' => rwa [Ready, (apply_insertOAuthToken happly).2.1]
  | insertBearer row' => rwa [Ready, (apply_insertBearer happly).2.1]
  | revoke i u at_ => rwa [Ready, (apply_revoke happly).2.1]
  | touchTokens u who at_ => rwa [Ready, (apply_touchTokens happly).2.1]

theorem ready_insertOAuthToken {row : OAuthToken}
    (hkeys : ∀ k ∈ (AccountWrite.insertOAuthToken row).keys, k ∉ w.keys)
    (hready : Ready own d (.insertOAuthToken row)) (happly : accounts.apply w d = some d') :
    Ready own d' (.insertOAuthToken row) := by
  cases w with
  | insertOAuthToken row' =>
      rw [Ready, (apply_insertOAuthToken happly).1, List.forall_mem_append]
      refine ⟨hready, fun r hr => ?_⟩
      rw [List.mem_singleton.mp hr]
      have hid := hkeys (.token row.id) (by simp [AccountWrite.keys])
      have huser := hkeys (.tokenOf row.userId) (by simp [AccountWrite.keys])
      simp only [AccountWrite.keys, List.mem_cons, Key.token.injEq, Key.tokenOf.injEq,
        reduceCtorEq, List.not_mem_nil, or_false, false_or] at hid huser
      exact ⟨Ne.symm hid, Ne.symm huser⟩
  | touchTokens u who at_ =>
      obtain ⟨⟨f, hrows, hf⟩, -, -⟩ := apply_touchTokens happly
      rw [Ready, hrows, List.forall_mem_map]
      intro r hr
      rw [(hf r).1, (hf r).2]
      exact hready r hr
  | insertUser row' => rwa [Ready, (apply_insertUser happly).2.1]
  | insertBearer row' => rwa [Ready, (apply_insertBearer happly).2.2.1]
  | revoke i u at_ => rwa [Ready, (apply_revoke happly).2.2]
  | touchUser i at_ => rwa [Ready, (apply_touchUser happly).2.1]

theorem ready_insertBearer {row : McpBearer}
    (hkeys : ∀ k ∈ (AccountWrite.insertBearer row).keys, k ∉ w.keys)
    (hready : Ready own d (.insertBearer row)) (happly : accounts.apply w d = some d') :
    Ready own d' (.insertBearer row) := by
  cases w with
  | insertBearer row' =>
      rw [Ready, (apply_insertBearer happly).1, List.forall_mem_append]
      refine ⟨hready, fun r hr => ?_⟩
      rw [List.mem_singleton.mp hr]
      have hid := hkeys (.bearer row.id) (by simp [AccountWrite.keys])
      have hhash := hkeys (.hash row.tokenHash) (by simp [AccountWrite.keys])
      have hactive := hkeys (.active row.userId) (by simp [AccountWrite.keys])
      simp only [AccountWrite.keys, List.mem_cons, Key.bearer.injEq, Key.hash.injEq,
        Key.active.injEq, reduceCtorEq, List.not_mem_nil, or_false, false_or]
        at hid hhash hactive
      exact ⟨Ne.symm hid, Ne.symm hhash, fun howner => absurd howner.symm hactive⟩
  | revoke i u at_ =>
      rw [Ready, (apply_revoke happly).1, List.forall_mem_map]
      intro r hr
      obtain ⟨hid, hhash, hclash⟩ := hready r hr
      rw [revokeBearer_id, revokeBearer_tokenHash, revokeBearer_userId]
      exact ⟨hid, hhash, fun howner hr' => hclash howner (revokeBearer_active hr').1⟩
  | insertUser row' => rwa [Ready, (apply_insertUser happly).2.2.1]
  | insertOAuthToken row' => rwa [Ready, (apply_insertOAuthToken happly).2.2.1]
  | touchUser i at_ => rwa [Ready, (apply_touchUser happly).2.2]
  | touchTokens u who at_ => rwa [Ready, (apply_touchTokens happly).2.2]

end Undisturbed

theorem stable_ready : Transactions.Stable accounts Ready where
  keep := by
    intro own d d' w w' hdisjoint hready happly
    have hkeys : ∀ k ∈ w.keys, k ∉ w'.keys := hdisjoint
    cases w with
    | insertUser row => exact ready_insertUser hkeys hready happly
    | insertOAuthToken row => exact ready_insertOAuthToken hkeys hready happly
    | insertBearer row => exact ready_insertBearer hkeys hready happly
    | _ => trivial
  more := by
    intro own d w w' hready
    cases w with
    | insertBearer row =>
        intro r hr
        obtain ⟨hid, hhash, hclash⟩ := hready r hr
        refine ⟨hid, hhash, fun hown hr hrow => ?_⟩
        obtain ⟨at_, hmem⟩ := hclash hown hr hrow
        exact ⟨at_, List.mem_append_left _ hmem⟩
    | _ => exact hready

/-- A write whose check leaves nothing to the rest of its transaction goes
through. -/
theorem apply_of_ready {w : AccountWrite} {db : Database} (h : Ready [] db w) :
    ∃ db', accounts.apply w db = some db' := by
  cases w with
  | insertUser row =>
      have hkey : (db.users.insert? row).isSome :=
        Table.insert?_isSome_iff.mpr (Table.find?_eq_none_iff.mpr fun r hr => (h r hr).1)
      obtain ⟨t, ht⟩ := Option.isSome_iff_exists.mp hkey
      have hinsert : insertUser db.users row = some t := by
        refine (if_neg fun hclash => ?_).trans ht
        obtain ⟨r, hr, hclash⟩ := List.any_eq_true.mp hclash
        exact (of_decide_eq_true hclash).elim (h r hr).2.1 (h r hr).2.2
      exact ⟨_, Option.map_eq_some_iff.mpr ⟨t, hinsert, rfl⟩⟩
  | insertOAuthToken row =>
      have hkey : (db.oauthTokens.insert? row).isSome :=
        Table.insert?_isSome_iff.mpr (Table.find?_eq_none_iff.mpr fun r hr => (h r hr).1)
      obtain ⟨t, ht⟩ := Option.isSome_iff_exists.mp hkey
      have hinsert : insertOAuthToken db.oauthTokens row = some t := by
        refine (if_neg fun hclash => ?_).trans ht
        obtain ⟨r, hr, hclash⟩ := List.any_eq_true.mp hclash
        exact (h r hr).2 (of_decide_eq_true hclash)
      exact ⟨_, Option.map_eq_some_iff.mpr ⟨t, hinsert, rfl⟩⟩
  | insertBearer row =>
      have hkey : (db.mcpBearers.insert? row).isSome :=
        Table.insert?_isSome_iff.mpr (Table.find?_eq_none_iff.mpr fun r hr => (h r hr).1)
      obtain ⟨t, ht⟩ := Option.isSome_iff_exists.mp hkey
      have hinsert : insertBearer db.mcpBearers row = some t := by
        refine (if_neg fun hclash => ?_).trans ht
        obtain ⟨r, hr, hclash⟩ := List.any_eq_true.mp hclash
        obtain ⟨-, hhash, hactive⟩ := h r hr
        rcases of_decide_eq_true hclash with heq | ⟨howner, hr', hrow⟩
        · exact hhash heq
        · obtain ⟨at_, hmem⟩ := hactive howner hr' hrow
          exact List.not_mem_nil hmem
      exact ⟨_, Option.map_eq_some_iff.mpr ⟨t, hinsert, rfl⟩⟩
  | _ => exact ⟨_, rfl⟩

end TranscriptionApi.Auth
