import TranscriptionApi.Auth.Gates
import TranscriptionApi.Auth.Pending

/-!
Every user has one set of provider tokens and one active bearer, in every
committed state.

A step does one of four things to the tables, `Effect`: nothing, one more
pending write, a ROLLBACK or a COMMIT. The phase of a request tells what it has
pending, `Shape`, so a COMMIT publishes either a whole first login, or a refresh,
or a new bearer on top of the revocations it needs. That it passes the
constraints is what they were checked for, `commit_isSome`.
-/

namespace TranscriptionApi.Auth

open Db Lib Python

/-! ### What a request has pending -/

def Revokes (u : Uuid) (ws : List AccountWrite) : Prop :=
  ∀ w ∈ ws, ∃ i at_, w = .revoke i u at_

/-- The writes that belong to a phase. -/
def Shape (sha256Hex : Bytes → String) : Option RequestPhase → List AccountWrite → Prop
  | some (.revoking u _ _), ws => Revokes u ws
  | some (.regenerated u plaintext), ws => ∃ vs i at_, Revokes u vs ∧
      ws = vs ++ [.insertBearer (bearerRow sha256Hex at_ u i plaintext "regenerated")]
  | some (.login how left), ws => ws ++ left = how.statements sha256Hex
  | _, ws => ws = []

theorem RequestPhase.commits_cases {phase : RequestPhase} {answer : AuthAnswer}
    (h : phase.commits = some answer) :
    (∃ u plaintext, phase = .regenerated u plaintext ∧ answer = .bearer u plaintext) ∨
      ∃ how, phase = .login how [] ∧ answer = .redirect how := by
  unfold RequestPhase.commits at h
  split at h
  · cases h
    exact .inl ⟨_, _, rfl, rfl⟩
  · cases h
    exact .inr ⟨_, rfl, rfl⟩
  · cases h

/-- A request up to its COMMIT. -/
def RequestPhase.Open : RequestPhase → Prop
  | .committed _ => False
  | .ended _ => False
  | _ => True

section Steps

variable {sha256Hex : Bytes → String} {s s' : Traffic} {p : ℕ} {e : TrafficEvent}

/-- The request has not come to its COMMIT. -/
def Traffic.Open (s : Traffic) (p : ℕ) : Prop := ∀ phase, s.requests p = some phase → phase.Open

/-- The effects of one step of request `p`. -/
inductive Effect (sha256Hex : Bytes → String) (s : Traffic) (p : ℕ) : Traffic → Prop
  | moves (phase : RequestPhase)
      (hshape : Shape sha256Hex (s.requests p) (s.tables.pending p) →
        Shape sha256Hex (some phase) (s.tables.pending p))
      (hopen : s.Open p) (hphase : phase.Open) : Effect sha256Hex s p (s.goto p phase)
  | writes (phase : RequestPhase) (w : AccountWrite)
      (hfree : s.tables.free accounts p w = true)
      (hready : Ready (s.tables.pending p ++ [w]) s.tables.committed w)
      (hshape : Shape sha256Hex (s.requests p) (s.tables.pending p) →
        Shape sha256Hex (some phase) (s.tables.pending p ++ [w]))
      (hopen : s.Open p) (hphase : phase.Open) :
      Effect sha256Hex s p
        ⟨s.tables.write accounts p w, Function.update s.requests p (some phase)⟩
  | retries (u : Uuid) (hopen : s.Open p) : Effect sha256Hex s p (s.rollback p (.revoke u true))
  | fails (hopen : ∀ answer, s.requests p ≠ some (.ended answer)) :
      Effect sha256Hex s p (s.rollback p (.ended .failed))
  | commits (answer : AuthAnswer) (phase : RequestPhase) (d : Database)
      (hcommits : (s.requests p).bind RequestPhase.commits = some answer)
      (hphase : phase = .committed answer ∨ phase = .ended .failed)
      (hview : s.tables.view accounts p = some d) :
      Effect sha256Hex s p
        ⟨{ s.tables.rollback p with committed := d }, Function.update s.requests p (some phase)⟩
  | answers (answer : AuthAnswer) (hp : s.requests p = some (.committed answer)) :
      Effect sha256Hex s p (s.goto p (.ended answer))

theorem execute_effect {w : AccountWrite} {phase violated : RequestPhase}
    (h : s.execute p w phase violated = some s')
    (hshape : Shape sha256Hex (s.requests p) (s.tables.pending p) →
      Shape sha256Hex (some phase) (s.tables.pending p ++ [w]))
    (hopen : s.Open p) (hphase : phase.Open)
    (hviolated : violated = .ended .failed ∨ ∃ u, violated = .revoke u true) :
    Effect sha256Hex s p s' := by
  obtain ⟨result, hresult, rfl⟩ := Option.map_eq_some_iff.mp h
  cases result with
  | none =>
      rcases hviolated with rfl | ⟨u, rfl⟩
      · exact .fails fun answer heq => hopen _ heq
      · exact .retries u hopen
  | some tables =>
      obtain ⟨hfree, rfl, d, d', hd, happly⟩ := Transactions.execute_done hresult
      exact .writes phase w hfree (ready_of_apply hd happly) hshape hopen hphase

theorem commit_effect {answer : AuthAnswer} {phase : RequestPhase}
    (h : s.commit p phase = some s')
    (hcommits : (s.requests p).bind RequestPhase.commits = some answer)
    (hphase : phase = .committed answer ∨ phase = .ended .failed) : Effect sha256Hex s p s' := by
  obtain ⟨tables, htables, rfl⟩ := Option.map_eq_some_iff.mp h
  obtain ⟨d, hd, rfl⟩ := Transactions.commit_eq_some htables
  exact .commits answer phase d hcommits hphase hd

theorem open_of_requests {phase : RequestPhase} (hp : s.requests p = some phase)
    (hphase : phase.Open) : s.Open p := by
  intro phase' heq
  obtain rfl := Option.some.inj (hp.symm.trans heq)
  exact hphase

theorem open_of_none (hp : s.requests p = none) : s.Open p := by
  intro phase heq
  cases hp.symm.trans heq

theorem turn_effect {at_ : ℤ} {draw : BearerDraw} {phase : RequestPhase}
    (hp : s.requests p = some phase) (h : turn sha256Hex s p at_ draw phase = some s') :
    Effect sha256Hex s p s' := by
  cases phase with
  | revoke u last =>
      cases h
      apply Effect.moves
      · rw [hp]
        rintro (hempty : s.tables.pending p = []) w hw
        rw [hempty] at hw
        cases hw
      · exact open_of_requests hp trivial
      · trivial
  | revoking u last found =>
      have hopen := open_of_requests hp trivial
      cases found with
      | nil =>
          refine execute_effect h ?_ hopen trivial ?_
          · rw [hp]
            exact fun hrevokes => ⟨_, _, _, hrevokes, rfl⟩
          · split
            · exact .inl rfl
            · exact .inr ⟨u, rfl⟩
      | cons i found =>
          simp only [turn] at h
          split at h
          · rename_i hfree
            split at h
            · cases h
              apply Effect.writes _ _ hfree trivial
              · rw [hp]
                intro (hrevokes : Revokes u (s.tables.pending p))
                exact List.forall_mem_append.mpr ⟨hrevokes,
                  List.forall_mem_singleton.mpr ⟨i, at_, rfl⟩⟩
              · exact hopen
              · trivial
            · cases h
              apply Effect.moves
              · rw [hp]
                exact fun hrevokes => hrevokes
              · exact hopen
              · trivial
          · cases h
  | regenerated u plaintext =>
      refine commit_effect h ?_ (.inl rfl)
      rw [hp]
      rfl
  | login how left =>
      cases left with
      | nil =>
          refine commit_effect h ?_ (.inl rfl)
          rw [hp]
          rfl
      | cons w left =>
          refine execute_effect h ?_ (open_of_requests hp trivial) trivial (.inl rfl)
          rw [hp]
          intro (hstatements : s.tables.pending p ++ w :: left = how.statements sha256Hex)
          show s.tables.pending p ++ [w] ++ left = how.statements sha256Hex
          rw [List.append_assoc]
          exact hstatements
  | committed answer =>
      cases h
      exact .answers answer hp
  | ended answer => cases h

theorem step_effect (h : (traffic sha256Hex).step s e = some s') :
    Effect sha256Hex s e.actor s' := by
  replace h : s.step sha256Hex e = some s' := h
  cases e with
  | callback p at_ who draws =>
      simp only [Traffic.step] at h
      split at h
      · rename_i hnone
        have hp := Option.isNone_iff_eq_none.mp hnone
        cases h
        apply Effect.moves
        · show Shape sha256Hex (s.requests p) _ → _
          rw [hp]
          rintro (hempty : s.tables.pending p = [])
          show s.tables.pending p ++ _ = _
          rw [hempty]
          rfl
        · exact open_of_none hp
        · trivial
      · cases h
  | regenerate p u =>
      simp only [Traffic.step] at h
      split at h
      · rename_i hnone
        have hp := Option.isNone_iff_eq_none.mp hnone.1
        cases h
        apply Effect.moves
        · show Shape sha256Hex (s.requests p) _ → _
          rw [hp]
          exact fun hempty => hempty
        · exact open_of_none hp
        · trivial
      · cases h
  | turn p at_ draw =>
      obtain ⟨phase, hp, hturn⟩ := Option.bind_eq_some_iff.mp h
      exact turn_effect hp hturn
  | fail p =>
      simp only [Traffic.step] at h
      split at h
      · cases h
      · cases h
      · rename_i phase hopen hp
        cases h
        refine .fails fun answer heq => ?_
        exact hopen answer (Option.some.inj (hp.symm.trans heq))
  | lostCommit p =>
      obtain ⟨answer, hcommits, hcommit⟩ := Option.bind_eq_some_iff.mp h
      exact commit_effect hcommit hcommits (.inr rfl)

end Steps

/-! ### What a COMMIT publishes -/

/-- Every user has exactly one row of provider tokens and one active bearer. -/
def Settled (db : Database) : Prop :=
  ∀ user ∈ db.users.rows,
    (∃! t, t ∈ db.oauthTokens.rows ∧ t.userId = user.id) ∧
      ∃! b, b ∈ db.mcpBearers.rows ∧ b.userId = user.id ∧ b.revokedAt = none

/-- A bearer that is revoked stays as it is. -/
def RevokedKept (db db' : Database) : Prop :=
  ∀ b ∈ db.mcpBearers.rows, b.revokedAt ≠ none → b ∈ db'.mcpBearers.rows

theorem existsUnique_append {α : Type} {rows : List α} {row : α} {P : α → Prop}
    (hnone : ∀ r ∈ rows, ¬ P r) (hrow : P row) : ∃! r, r ∈ rows ++ [row] ∧ P r := by
  refine ⟨row, ⟨List.mem_append_right _ List.mem_cons_self, hrow⟩, ?_⟩
  rintro r ⟨hr, hP⟩
  rw [List.mem_append, List.mem_singleton] at hr
  exact hr.resolve_left fun hr => hnone r hr hP

theorem existsUnique_append_of_not {α : Type} {rows : List α} {row : α} {P : α → Prop}
    (hone : ∃! r, r ∈ rows ∧ P r) (hrow : ¬ P row) : ∃! r, r ∈ rows ++ [row] ∧ P r := by
  obtain ⟨r, ⟨hr, hP⟩, hunique⟩ := hone
  refine ⟨r, ⟨List.mem_append_left _ hr, hP⟩, ?_⟩
  rintro r' ⟨hr', hP'⟩
  rw [List.mem_append, List.mem_singleton] at hr'
  rcases hr' with hr' | rfl
  · exact hunique r' ⟨hr', hP'⟩
  · exact absurd hP' hrow

theorem existsUnique_map {α : Type} {rows : List α} {f : α → α} {P : α → Prop}
    (hone : ∃! r, r ∈ rows ∧ P r) (hf : ∀ r, P (f r) ↔ P r) :
    ∃! r, r ∈ rows.map f ∧ P r := by
  obtain ⟨r, ⟨hr, hP⟩, hunique⟩ := hone
  refine ⟨f r, ⟨List.mem_map_of_mem hr, (hf r).mpr hP⟩, ?_⟩
  rintro _ ⟨hr', hP'⟩
  obtain ⟨r', hmem, rfl⟩ := List.mem_map.mp hr'
  rw [hunique r' ⟨hmem, (hf r').mp hP'⟩]

/-- What the revocations of a transaction make of a bearer. -/
def afterRevokes (ws : List AccountWrite) (b : McpBearer) : McpBearer :=
  ws.foldl (fun b w =>
    match w with
    | .revoke i u at_ => revokeBearer i u at_ b
    | _ => b) b

section Commit

variable {sha256Hex : Bytes → String} {db db' : Database} {u : Uuid} {ws : List AccountWrite}

theorem applyAll_revokes (h : Revokes u ws) (db : Database) :
    ∃ t : Table McpBearer McpBearer.id,
      accounts.applyAll ws db = some { db with mcpBearers := t } ∧
        t.rows = db.mcpBearers.rows.map (afterRevokes ws) := by
  induction ws generalizing db with
  | nil => exact ⟨db.mcpBearers, rfl, (List.map_id _).symm⟩
  | cons w ws ih =>
      obtain ⟨i, at_, rfl⟩ := h w List.mem_cons_self
      obtain ⟨d₁, hd₁⟩ : ∃ d₁, accounts.apply (.revoke i u at_) db = some d₁ := ⟨_, rfl⟩
      obtain ⟨t, ht, hrows⟩ := ih (fun v hv => h v (List.mem_cons_of_mem _ hv)) d₁
      refine ⟨t, ?_, ?_⟩
      · rw [Writes.applyAll_cons, hd₁, Option.bind_some, ht]
        cases hd₁
        rfl
      · rw [hrows, (apply_revoke hd₁).1, List.map_map]
        rfl

theorem afterRevokes_kept {b : McpBearer} (h : b.revokedAt ≠ none) : afterRevokes ws b = b := by
  induction ws with
  | nil => rfl
  | cons w ws ih =>
      cases w with
      | revoke i u at_ =>
          show afterRevokes ws (revokeBearer i u at_ b) = b
          rw [revokeBearer_of_revoked i u at_ h]
          exact ih
      | _ => exact ih

theorem afterRevokes_of_ne (h : Revokes u ws) {b : McpBearer} (hne : b.userId ≠ u) :
    afterRevokes ws b = b := by
  induction ws with
  | nil => rfl
  | cons w ws ih =>
      obtain ⟨i, at_, rfl⟩ := h w List.mem_cons_self
      show afterRevokes ws (revokeBearer i u at_ b) = b
      rw [revokeBearer_of_ne i at_ hne]
      exact ih fun v hv => h v (List.mem_cons_of_mem _ hv)

theorem afterRevokes_columns (ws : List AccountWrite) (b : McpBearer) :
    (afterRevokes ws b).id = b.id ∧ (afterRevokes ws b).tokenHash = b.tokenHash ∧
      (afterRevokes ws b).userId = b.userId := by
  induction ws generalizing b with
  | nil => exact ⟨rfl, rfl, rfl⟩
  | cons w ws ih =>
      cases w with
      | revoke i u at_ =>
          obtain ⟨hid, hhash, huser⟩ := ih (revokeBearer i u at_ b)
          exact ⟨hid.trans (revokeBearer_id ..), hhash.trans (revokeBearer_tokenHash ..),
            huser.trans (revokeBearer_userId ..)⟩
      | _ => exact ih b

/-- A bearer that is active afterwards was so, and nobody has revoked it. -/
theorem afterRevokes_active {b : McpBearer} (h : (afterRevokes ws b).revokedAt = none) :
    b.revokedAt = none ∧ ∀ at_, AccountWrite.revoke b.id b.userId at_ ∉ ws := by
  induction ws generalizing b with
  | nil => exact ⟨h, fun _ => List.not_mem_nil⟩
  | cons w ws ih =>
      cases w with
      | revoke i u at_ =>
          obtain ⟨hactive, hrest⟩ := ih (b := revokeBearer i u at_ b) h
          obtain ⟨hb, hother⟩ := revokeBearer_active hactive
          rw [revokeBearer_id, revokeBearer_userId] at hrest
          refine ⟨hb, fun at' hmem => ?_⟩
          rcases List.mem_cons.mp hmem with heq | hmem
          · cases heq
            exact hother ⟨rfl, rfl⟩
          · exact hrest at' hmem
      | _ =>
          obtain ⟨hb, hrest⟩ := ih (b := b) h
          refine ⟨hb, fun at' hmem => hrest at' ?_⟩
          exact (List.mem_cons.mp hmem).resolve_left fun heq => nomatch heq

/-- A new bearer on top of the revocations. -/
theorem applyAll_regenerated {row : McpBearer} (hrevokes : Revokes u ws)
    (h : accounts.applyAll (ws ++ [.insertBearer row]) db = some db') :
    db'.users = db.users ∧ db'.oauthTokens = db.oauthTokens ∧
      db'.mcpBearers.rows = db.mcpBearers.rows.map (afterRevokes ws) ++ [row] ∧
      ∀ r ∈ db.mcpBearers.rows, ¬ ((afterRevokes ws r).userId = row.userId ∧
        (afterRevokes ws r).revokedAt = none ∧ row.revokedAt = none) := by
  obtain ⟨t, ht, hrows⟩ := applyAll_revokes hrevokes db
  rw [Writes.applyAll_append, ht, Option.bind_some, Writes.applyAll_singleton] at h
  obtain ⟨hrows', husers, htokens, hfree⟩ := apply_insertBearer h
  rw [hrows] at hrows'
  rw [hrows, List.forall_mem_map] at hfree
  exact ⟨husers, htokens, hrows', fun r hr => (hfree r hr).2.2⟩

theorem settled_regenerated {row : McpBearer} (hdb : Settled db) (hrevokes : Revokes u ws)
    (hrow : row.userId = u) (hactive : row.revokedAt = none)
    (h : accounts.applyAll (ws ++ [.insertBearer row]) db = some db') : Settled db' := by
  obtain ⟨husers, htokens, hrows, hfree⟩ := applyAll_regenerated hrevokes h
  intro user huser
  rw [husers] at huser
  obtain ⟨htoken, hbearer⟩ := hdb user huser
  rw [htokens, hrows]
  refine ⟨htoken, ?_⟩
  by_cases hu : user.id = u
  · apply existsUnique_append
    · rw [List.forall_mem_map]
      rintro r hr ⟨howner, hr'⟩
      exact hfree r hr ⟨howner.trans (hu.trans hrow.symm), hr', hactive⟩
    · exact ⟨hrow.trans hu.symm, hactive⟩
  · apply existsUnique_append_of_not
    · apply existsUnique_map hbearer
      intro r
      rw [(afterRevokes_columns ws r).2.2]
      refine and_congr_right fun howner => ?_
      rw [afterRevokes_of_ne hrevokes (howner ▸ hu)]
    · exact fun hrow' => hu (hrow'.1.symm.trans hrow)

/-- A first login adds a user, its tokens and its bearer, none of which was
there before. -/
theorem applyAll_first {who : Identity} {draws : LoginDraws} {at_ : ℤ}
    (h : accounts.applyAll ((Login.first who draws at_).statements sha256Hex) db = some db') :
    (db'.users.rows = db.users.rows ++ [userRow who draws at_] ∧
      ∀ r ∈ db.users.rows, r.id ≠ draws.userId) ∧
    (db'.oauthTokens.rows = db.oauthTokens.rows ++ [tokenRow who draws at_] ∧
      ∀ r ∈ db.oauthTokens.rows, r.userId ≠ draws.userId) ∧
    (db'.mcpBearers.rows = db.mcpBearers.rows ++
        [bearerRow sha256Hex at_ draws.userId draws.bearerId draws.bearer "initial"] ∧
      ∀ r ∈ db.mcpBearers.rows, ¬ (r.userId = draws.userId ∧ r.revokedAt = none)) := by
  obtain ⟨d₁, h₁, h⟩ := Option.bind_eq_some_iff.mp h
  obtain ⟨d₂, h₂, h⟩ := Option.bind_eq_some_iff.mp h
  rw [Writes.applyAll_singleton] at h
  obtain ⟨husers₁, htokens₁, hbearers₁, hfree₁⟩ := apply_insertUser h₁
  obtain ⟨htokens₂, husers₂, hbearers₂, hfree₂⟩ := apply_insertOAuthToken h₂
  obtain ⟨hbearers, husers, htokens, hfree⟩ := apply_insertBearer h
  refine ⟨⟨?_, fun r hr => (hfree₁ r hr).1⟩, ⟨?_, fun r hr => ?_⟩, ?_, fun r hr hclash => ?_⟩
  · rw [husers, husers₂, husers₁]
  · rw [htokens, htokens₂, htokens₁]
  · exact (hfree₂ r (htokens₁ ▸ hr)).2
  · rw [hbearers, hbearers₂, hbearers₁]
  · refine (hfree r ?_).2.2 ⟨hclash.1, hclash.2, rfl⟩
    rw [hbearers₂, hbearers₁]
    exact hr

/-- A later login changes neither who has tokens nor any bearer. -/
theorem applyAll_later {who : Identity} {user : User} {at_ : ℤ}
    (h : accounts.applyAll ((Login.later who user at_).statements sha256Hex) db = some db') :
    (∃ f, db'.users.rows = db.users.rows.map f ∧ ∀ r, (f r).id = r.id) ∧
    (∃ g, db'.oauthTokens.rows = db.oauthTokens.rows.map g ∧ ∀ t, (g t).userId = t.userId) ∧
    db'.mcpBearers = db.mcpBearers := by
  obtain ⟨d₁, h₁, h⟩ := Option.bind_eq_some_iff.mp h
  rw [Writes.applyAll_singleton] at h
  obtain ⟨⟨f, husers, hf⟩, htokens₁, hbearers₁⟩ := apply_touchUser h₁
  obtain ⟨⟨g, htokens, hg⟩, husers₂, hbearers₂⟩ := apply_touchTokens h
  refine ⟨⟨f, by rw [husers₂, husers], fun r => (hf r).1⟩,
    ⟨g, by rw [htokens, htokens₁], fun t => (hg t).2⟩, hbearers₂.trans hbearers₁⟩

theorem settled_login {how : Login} (hdb : Settled db)
    (h : accounts.applyAll (how.statements sha256Hex) db = some db') : Settled db' := by
  cases how with
  | first who draws at_ =>
      obtain ⟨⟨husers, hnew⟩, ⟨htokens, hnoToken⟩, hbearers, hnoBearer⟩ := applyAll_first h
      intro user huser
      rw [husers, List.mem_append, List.mem_singleton] at huser
      rw [htokens, hbearers]
      rcases huser with huser | rfl
      · obtain ⟨htoken, hbearer⟩ := hdb user huser
        have hne := hnew user huser
        exact ⟨existsUnique_append_of_not htoken (Ne.symm hne),
          existsUnique_append_of_not hbearer fun hrow => hne hrow.1.symm⟩
      · exact ⟨existsUnique_append hnoToken rfl, existsUnique_append hnoBearer ⟨rfl, rfl⟩⟩
  | later who user at_ =>
      obtain ⟨⟨f, husers, hf⟩, ⟨g, htokens, hg⟩, hbearers⟩ := applyAll_later h
      intro user huser
      rw [husers] at huser
      obtain ⟨old, hold, rfl⟩ := List.mem_map.mp huser
      obtain ⟨htoken, hbearer⟩ := hdb old hold
      rw [hf old, htokens, hbearers]
      refine ⟨existsUnique_map htoken fun t => ?_, hbearer⟩
      rw [hg t]

theorem revokedKept_regenerated {row : McpBearer} (hrevokes : Revokes u ws)
    (h : accounts.applyAll (ws ++ [.insertBearer row]) db = some db') : RevokedKept db db' := by
  obtain ⟨-, -, hrows, -⟩ := applyAll_regenerated hrevokes h
  intro b hb hrevoked
  rw [hrows]
  refine List.mem_append_left _ (List.mem_map.mpr ⟨b, hb, afterRevokes_kept hrevoked⟩)

/-- What the COMMIT of a new bearer leaves: the hash of its plaintext is the active one
of its user, and the bearers of the others are as they were. -/
structure Replaces (sha256Hex : Bytes → String) (u : Uuid) (plaintext : Token)
    (db db' : Database) : Prop where
  active : ∃ b ∈ db'.mcpBearers.rows,
    b.userId = u ∧ b.revokedAt = none ∧ b.tokenHash = plaintext.hash sha256Hex
  others : ∀ b, b.userId ≠ u → (b ∈ db'.mcpBearers.rows ↔ b ∈ db.mcpBearers.rows)

theorem replaces_regenerated {at_ : ℤ} {i : Uuid} {plaintext : Token} (hrevokes : Revokes u ws)
    (h : accounts.applyAll
      (ws ++ [.insertBearer (bearerRow sha256Hex at_ u i plaintext "regenerated")]) db = some db') :
    Replaces sha256Hex u plaintext db db' := by
  obtain ⟨-, -, hrows, -⟩ := applyAll_regenerated hrevokes h
  refine ⟨⟨bearerRow sha256Hex at_ u i plaintext "regenerated", ?_, rfl, rfl, rfl⟩,
    fun b howner => ?_⟩
  · rw [hrows]
    exact List.mem_append_right _ List.mem_cons_self
  · rw [hrows, List.mem_append, List.mem_singleton, List.mem_map]
    constructor
    · rintro (⟨old, hold, rfl⟩ | rfl)
      · rw [(afterRevokes_columns ws old).2.2] at howner
        rwa [afterRevokes_of_ne hrevokes howner]
      · exact absurd rfl howner
    · intro hb
      exact .inl ⟨b, hb, afterRevokes_of_ne hrevokes howner⟩

theorem revokedKept_login {how : Login}
    (h : accounts.applyAll (how.statements sha256Hex) db = some db') : RevokedKept db db' := by
  intro b hb _
  cases how with
  | first who draws at_ =>
      rw [(applyAll_first h).2.2.1]
      exact List.mem_append_left _ hb
  | later who user at_ =>
      rw [(applyAll_later h).2.2]
      exact hb

end Commit

/-! ### A transaction alone

Run from its first statement to its COMMIT with nobody else about, a request
does what the transactions of `Accounts` do. -/

section Alone

variable {sha256Hex : Bytes → String} {at_ : ℤ} {who : Identity} {db : Database}

theorem applyAll_first_alone (draws : LoginDraws) :
    accounts.applyAll ((Login.first who draws at_).statements sha256Hex) db =
      (createUser sha256Hex at_ who draws db).map Prod.snd := by
  have hstep : ∀ w ws d, accounts.applyAll (w :: ws) d =
      (w.apply d).bind (accounts.applyAll ws) := fun _ _ _ => rfl
  cases hu : insertUser db.users (userRow who draws at_) with
  | none =>
      rw [userRow] at hu
      simp [Login.statements, hstep, AccountWrite.apply, createUser, userRow, hu]
  | some users =>
      rw [userRow] at hu
      cases ht : insertOAuthToken db.oauthTokens (tokenRow who draws at_) with
      | none =>
          rw [tokenRow] at ht
          simp [Login.statements, hstep, AccountWrite.apply, createUser, userRow, tokenRow, hu, ht]
      | some tokens =>
          rw [tokenRow] at ht
          cases hb : insertBearer db.mcpBearers
              (bearerRow sha256Hex at_ draws.userId draws.bearerId draws.bearer "initial") with
          | none =>
              simp [Login.statements, hstep, AccountWrite.apply, createUser, userRow, tokenRow, hu,
                ht, hb]
          | some bearers =>
              simp [Login.statements, hstep, AccountWrite.apply, createUser, userRow, tokenRow, hu,
                ht, hb]

theorem applyAll_later_alone (user : User) :
    accounts.applyAll ((Login.later who user at_).statements sha256Hex) db =
      some (refreshUser at_ who user db) := rfl

/-- Revoking a bearer by its id. -/
theorem afterRevokes_map (ids : List Uuid) (u : Uuid) (b : McpBearer) :
    afterRevokes (ids.map fun i => .revoke i u at_) b =
      if b.id ∈ ids then revoked at_ u b else b := by
  induction ids generalizing b with
  | nil => rfl
  | cons i ids ih =>
      show afterRevokes (ids.map _) (revokeBearer i u at_ b) = _
      rw [ih, revokeBearer_id]
      by_cases hi : b.id = i
      · subst hi
        have hsame : revokeBearer b.id u at_ b = revoked at_ u b := by
          simp [revokeBearer, revoked]
        have htwice : revoked at_ u (revoked at_ u b) = revoked at_ u b :=
          if_neg fun h => ((revoked_revokedAt u b).mp h.2).2 ((revoked_userId u b).symm.trans h.1)
        rw [if_pos List.mem_cons_self, hsame, htwice, ite_self]
      · have hkept : revokeBearer i u at_ b = b := if_neg fun h => hi h.1
        rw [hkept]
        simp [hi]

theorem applyAll_regenerated_alone (u : Uuid) (draw : BearerDraw) :
    accounts.applyAll
        ((((db.mcpBearers.select fun b => b.userId = u ∧ b.revokedAt = none).map McpBearer.id).map
            fun i => .revoke i u at_) ++
          [.insertBearer (bearerRow sha256Hex at_ u draw.id draw.bearer "regenerated")]) db =
      (regenerateOnce sha256Hex at_ u draw db).map Prod.snd := by
  have hrevokes : Revokes u (((db.mcpBearers.select fun b =>
      b.userId = u ∧ b.revokedAt = none).map McpBearer.id).map fun i => .revoke i u at_) := by
    intro w hw
    obtain ⟨i, -, rfl⟩ := List.mem_map.mp hw
    exact ⟨i, at_, rfl⟩
  obtain ⟨t, ht, hrows⟩ := applyAll_revokes hrevokes db
  rw [Writes.applyAll_append, ht, Option.bind_some, Writes.applyAll_singleton]
  have hbearers : t = revokeActive at_ u db.mcpBearers := by
    apply Table.ext
    rw [hrows, revokeActive_rows]
    apply List.map_congr_left
    intro b hb
    rw [afterRevokes_map]
    split
    · rfl
    · rename_i hother
      refine (if_neg fun hactive => hother ?_).symm
      exact List.mem_map_of_mem (List.mem_filter.mpr ⟨hb, decide_eq_true hactive⟩)
  rw [hbearers, regenerateOnce, Option.map_map]
  rfl

end Alone

/-! ### Every run -/

section Runs

variable {sha256Hex : Bytes → String} {s s' : Traffic} {p : ℕ} {e : TrafficEvent}

/-- Nothing is in flight, and every user is settled. -/
structure Quiet (s : Traffic) : Prop where
  pending : ∀ p, s.tables.pending p = []
  requests : ∀ p, s.requests p = none
  settled : Settled s.tables.committed

structure Consistent (sha256Hex : Bytes → String) (s : Traffic) : Prop where
  held : s.tables.Held accounts
  guarded : s.tables.Guarded Ready
  shape : ∀ p, Shape sha256Hex (s.requests p) (s.tables.pending p)
  settled : Settled s.tables.committed

theorem consistent_quiet (sha256Hex : Bytes → String) (h : Quiet s) : Consistent sha256Hex s where
  held := fun p w hw => by
    rw [h.pending p] at hw
    cases hw
  guarded := fun p w hw => by
    rw [h.pending p] at hw
    cases hw
  shape := fun p => by
    rw [h.pending p, h.requests p]
    rfl
  settled := h.settled

theorem shape_update {tables : Transactions Database AccountWrite Key} {phase : RequestPhase}
    (h : ∀ q, Shape sha256Hex (s.requests q) (s.tables.pending q))
    (hothers : ∀ q, q ≠ p → tables.pending q = s.tables.pending q)
    (hp : Shape sha256Hex (some phase) (tables.pending p)) (q : ℕ) :
    Shape sha256Hex (Function.update s.requests p (some phase) q) (tables.pending q) := by
  by_cases hqp : q = p
  · subst hqp
    rw [Function.update_self]
    exact hp
  · rw [Function.update_of_ne hqp, hothers q hqp]
    exact h q

/-- What a COMMIT leaves behind. -/
theorem consistent_commit (h : Consistent sha256Hex s) {answer : AuthAnswer} {d : Database}
    (hcommits : (s.requests p).bind RequestPhase.commits = some answer)
    (hview : s.tables.view accounts p = some d) :
    Settled d ∧ RevokedKept s.tables.committed d ∧
      ∀ u plaintext, answer = .bearer u plaintext →
        Replaces sha256Hex u plaintext s.tables.committed d := by
  have hshape := h.shape p
  obtain ⟨phase, hp, hphase⟩ := Option.bind_eq_some_iff.mp hcommits
  rw [hp] at hshape
  rcases RequestPhase.commits_cases hphase with ⟨u, plaintext, rfl, rfl⟩ | ⟨how, rfl, rfl⟩
  · obtain ⟨vs, i, at_, hrevokes, hpending⟩ := hshape
    rw [Transactions.view, hpending] at hview
    refine ⟨settled_regenerated h.settled hrevokes rfl rfl hview,
      revokedKept_regenerated hrevokes hview, ?_⟩
    rintro _ _ ⟨⟩
    exact replaces_regenerated hrevokes hview
  · replace hshape : s.tables.pending p ++ [] = how.statements sha256Hex := hshape
    rw [List.append_nil] at hshape
    rw [Transactions.view, hshape] at hview
    refine ⟨settled_login h.settled hview, revokedKept_login hview, ?_⟩
    rintro _ _ ⟨⟩

/-- A COMMIT does not fail: what the statements have found still holds. -/
theorem view_isSome (h : Consistent sha256Hex s)
    {answer : AuthAnswer} (hcommits : (s.requests p).bind RequestPhase.commits = some answer) :
    ∃ d, s.tables.view accounts p = some d := by
  have hshape := h.shape p
  have hready := h.guarded p
  obtain ⟨phase, hp, hphase⟩ := Option.bind_eq_some_iff.mp hcommits
  rw [hp] at hshape
  rcases RequestPhase.commits_cases hphase with ⟨u, plaintext, rfl, -⟩ | ⟨how, rfl, -⟩
  · obtain ⟨vs, i, at_, hrevokes, hpending⟩ := hshape
    obtain ⟨t, ht, hrows⟩ := applyAll_revokes hrevokes s.tables.committed
    rw [hpending] at hready
    have hinsert := hready _ (List.mem_append_right _ List.mem_cons_self)
    rw [Transactions.view, hpending, Writes.applyAll_append, ht, Option.bind_some,
      Writes.applyAll_singleton]
    apply apply_of_ready
    rw [Ready, hrows, List.forall_mem_map]
    intro r hr
    obtain ⟨hid, hhash, hactive⟩ := hinsert r hr
    obtain ⟨hid', hhash', howner'⟩ := afterRevokes_columns vs r
    rw [hid', hhash', howner']
    refine ⟨hid, hhash, fun howner hr' hrow => ?_⟩
    obtain ⟨hr', hkept⟩ := afterRevokes_active hr'
    obtain ⟨at', hmem⟩ := hactive howner hr' hrow
    rcases List.mem_append.mp hmem with hmem | hmem
    · exact absurd hmem (hkept at')
    · cases List.mem_singleton.mp hmem
  · replace hshape : s.tables.pending p ++ [] = how.statements sha256Hex := hshape
    rw [List.append_nil] at hshape
    rw [hshape] at hready
    rw [Transactions.view, hshape]
    cases how with
    | first who draws at_ =>
        have huser := hready (.insertUser (userRow who draws at_)) (by simp [Login.statements])
        have htoken := hready (.insertOAuthToken (tokenRow who draws at_))
          (by simp [Login.statements])
        have hbearer := hready (.insertBearer
          (bearerRow sha256Hex at_ draws.userId draws.bearerId draws.bearer "initial"))
          (by simp [Login.statements])
        obtain ⟨d₁, h₁⟩ : ∃ d₁, accounts.apply (.insertUser (userRow who draws at_))
            s.tables.committed = some d₁ := apply_of_ready huser
        obtain ⟨-, htokens₁, hbearers₁, -⟩ := apply_insertUser h₁
        obtain ⟨d₂, h₂⟩ : ∃ d₂, accounts.apply (.insertOAuthToken (tokenRow who draws at_)) d₁ =
            some d₂ := apply_of_ready (by rwa [Ready, htokens₁])
        obtain ⟨-, -, hbearers₂, -⟩ := apply_insertOAuthToken h₂
        rw [Login.statements, Writes.applyAll_cons, h₁, Option.bind_some, Writes.applyAll_cons, h₂,
          Option.bind_some, Writes.applyAll_singleton]
        apply apply_of_ready
        rw [Ready, hbearers₂, hbearers₁]
        intro r hr
        obtain ⟨hid, hhash, hactive⟩ := hbearer r hr
        refine ⟨hid, hhash, fun howner hr' hrow => ?_⟩
        obtain ⟨at', hmem⟩ := hactive howner hr' hrow
        simp [Login.statements] at hmem
    | later who user at_ => exact ⟨_, rfl⟩

theorem consistent_step (h : Consistent sha256Hex s)
    (hstep : (traffic sha256Hex).step s e = some s') : Consistent sha256Hex s' := by
  have hrolled (phase : RequestPhase) (hphase : Shape sha256Hex (some phase) []) :
      Consistent sha256Hex (s.rollback e.actor phase) := by
    refine ⟨h.held.rollback _, h.guarded.rollback _,
      shape_update h.shape (fun q hq => Transactions.pending_rollback_ne hq) ?_, h.settled⟩
    have hempty : (s.rollback e.actor phase).tables.pending e.actor = [] :=
      Transactions.pending_rollback_self
    rwa [hempty]
  have heffect := step_effect hstep
  generalize e.actor = p at heffect hrolled
  cases heffect with
  | moves phase hshape =>
      exact ⟨h.held, h.guarded, shape_update h.shape (fun _ _ => rfl) (hshape (h.shape p)),
        h.settled⟩
  | writes phase w hfree hready hshape =>
      refine ⟨h.held.write hfree, h.guarded.write stable_ready hready,
        shape_update h.shape (fun q hq => Function.update_of_ne hq ..) ?_, h.settled⟩
      rw [show (s.tables.write accounts p w).pending p = s.tables.pending p ++ [w] from
        Function.update_self ..]
      exact hshape (h.shape p)
  | retries u => exact hrolled _ rfl
  | fails => exact hrolled _ rfl
  | commits answer phase d hcommits hphase hview =>
      have hcommit : s.tables.commit accounts p =
          some { s.tables.rollback p with committed := d } := by
        rw [Transactions.commit, hview]
        rfl
      refine ⟨h.held.commit hcommit, h.guarded.commit stable_ready h.held hcommit,
        shape_update h.shape (fun q hq => Transactions.pending_rollback_ne hq) ?_,
        (consistent_commit h hcommits hview).1⟩
      have hempty : (s.tables.rollback p).pending p = [] := Transactions.pending_rollback_self
      rcases hphase with rfl | rfl
      · exact hempty
      · exact hempty
  | answers answer hp =>
      refine ⟨h.held, h.guarded, shape_update h.shape (fun _ _ => rfl) ?_, h.settled⟩
      have hshape := h.shape p
      rw [hp] at hshape
      exact hshape

theorem revokedKept_step (h : Consistent sha256Hex s)
    (hstep : (traffic sha256Hex).step s e = some s') :
    RevokedKept s.tables.committed s'.tables.committed := by
  cases step_effect hstep with
  | commits answer phase d hcommits hphase hview => exact (consistent_commit h hcommits hview).2.1
  | _ => exact fun b hb _ => hb

/-! ### One request -/

/-- A step of request `p` leaves what is committed as it is. -/
def Untouched (p : ℕ) (s : Traffic) (e : TrafficEvent) (s' : Traffic) : Prop :=
  e.actor = p → s'.tables.committed = s.tables.committed

/-- The step is the COMMIT of request `p`, which is then going to give this answer. -/
def Commits (p : ℕ) (answer : AuthAnswer) (s : Traffic) (e : TrafficEvent) (s' : Traffic) : Prop :=
  e.actor = p ∧ (s.requests p).bind RequestPhase.commits = some answer ∧
    s.tables.view accounts p = some s'.tables.committed

/-- The request is past the COMMIT for this answer. -/
def Traffic.Done (s : Traffic) (p : ℕ) (answer : AuthAnswer) : Prop :=
  s.requests p = some (.committed answer) ∨ s.requests p = some (.ended answer) ∨
    s.requests p = some (.ended .failed)

theorem requests_of_ne (h : Effect sha256Hex s p s') {q : ℕ} (hq : q ≠ p) :
    s'.requests q = s.requests q := by
  cases h with
  | _ => exact Function.update_of_ne hq ..

theorem ended_step (hstep : (traffic sha256Hex).step s e = some s') {answer : AuthAnswer}
    (hp : s.requests p = some (.ended answer)) :
    s'.requests p = some (.ended answer) ∧ Untouched p s e s' := by
  have heffect := step_effect hstep
  have hother : e.actor ≠ p := by
    rintro rfl
    cases heffect with
    | moves phase hshape hopen => exact hopen _ hp
    | writes phase w hfree hready hshape hopen => exact hopen _ hp
    | retries u hopen => exact hopen _ hp
    | fails hopen => exact hopen answer hp
    | commits answer' phase d hcommits =>
        rw [hp] at hcommits
        cases hcommits
    | answers answer' hp' => cases hp.symm.trans hp'
  exact ⟨(requests_of_ne heffect hother.symm).trans hp, fun hactor => absurd hactor hother⟩

theorem done_step (hstep : (traffic sha256Hex).step s e = some s') {answer : AuthAnswer}
    (hp : s.Done p answer) : s'.Done p answer ∧ Untouched p s e s' := by
  rcases hp with hp | hp | hp
  · have heffect := step_effect hstep
    by_cases hactor : e.actor = p
    · subst hactor
      cases heffect with
      | moves phase hshape hopen => exact (hopen _ hp).elim
      | writes phase w hfree hready hshape hopen => exact (hopen _ hp).elim
      | retries u hopen => exact (hopen _ hp).elim
      | fails => exact ⟨.inr (.inr (Function.update_self ..)), fun _ => rfl⟩
      | commits answer' phase d hcommits =>
          rw [hp] at hcommits
          cases hcommits
      | answers answer' hp' =>
          cases hp.symm.trans hp'
          exact ⟨.inr (.inl (Function.update_self ..)), fun _ => rfl⟩
    · exact ⟨.inl ((requests_of_ne heffect (Ne.symm hactor)).trans hp),
        fun heq => absurd heq hactor⟩
  · obtain ⟨hended, hkept⟩ := ended_step hstep hp
    exact ⟨.inr (.inl hended), hkept⟩
  · obtain ⟨hended, hkept⟩ := ended_step hstep hp
    exact ⟨.inr (.inr hended), hkept⟩

/-- A request that is before its COMMIT stays so or fails, or it commits. -/
theorem open_step (hstep : (traffic sha256Hex).step s e = some s') (hopen : s.Open p) :
    (Untouched p s e s' ∧ (s'.Open p ∨ s'.requests p = some (.ended .failed))) ∨
      ∃ answer, Commits p answer s e s' ∧ s'.Done p answer := by
  have heffect := step_effect hstep
  by_cases hactor : e.actor = p
  · subst hactor
    have hself (requests : ℕ → Option RequestPhase) (phase : RequestPhase) :
        Function.update requests e.actor (some phase) e.actor = some phase :=
      Function.update_self ..
    cases heffect with
    | moves phase hshape _ hphase =>
        exact .inl ⟨fun _ => rfl, .inl (open_of_requests (hself _ _) hphase)⟩
    | writes phase w hfree hready hshape _ hphase =>
        exact .inl ⟨fun _ => rfl, .inl (open_of_requests (hself _ _) hphase)⟩
    | retries u => exact .inl ⟨fun _ => rfl, .inl (open_of_requests (hself _ _) trivial)⟩
    | fails => exact .inl ⟨fun _ => rfl, .inr (hself _ _)⟩
    | commits answer phase d hcommits hphase hview =>
        refine .inr ⟨answer, ⟨rfl, hcommits, hview⟩, ?_⟩
        rcases hphase with rfl | rfl
        · exact .inl (hself _ _)
        · exact .inr (.inr (hself _ _))
    | answers answer hp => exact (hopen _ hp).elim
  · refine .inl ⟨fun heq => absurd heq hactor, .inl fun phase hp => hopen phase ?_⟩
    rwa [requests_of_ne heffect (Ne.symm hactor)] at hp

/-- The fate of a request: it leaves what is committed as it is, and has not answered but
with a failure; or one step of it, its COMMIT, has changed that, whatever it then came to. -/
theorem fate_of_run {t : Traffic} {es : List TrafficEvent} (hopen : s.Open p)
    (hrun : (traffic sha256Hex).run s es = some t) :
    ((traffic sha256Hex).Along (Untouched p) s es ∧
      (t.Open p ∨ t.requests p = some (.ended .failed))) ∨
    ∃ answer, (traffic sha256Hex).Once (Untouched p) (Commits p answer) s es ∧
      t.Done p answer := by
  induction es generalizing s with
  | nil =>
      obtain rfl := Option.some.inj hrun
      exact .inl ⟨trivial, .inl hopen⟩
  | cons e es ih =>
      obtain ⟨s₁, hs₁, hrest⟩ := System.run_cons_eq_some _ |>.mp hrun
      rcases open_step hs₁ hopen with ⟨hkept, hopen₁ | hfailed⟩ | ⟨answer, hcommit, hdone⟩
      · rcases ih hopen₁ hrest with ⟨halong, hend⟩ | ⟨answer, honce, hdone⟩
        · exact .inl ⟨halong.cons _ hs₁ hkept, hend⟩
        · exact .inr ⟨answer, honce.cons _ hs₁ hkept, hdone⟩
      · -- an ended request stays ended
        have halong : (traffic sha256Hex).Along (Untouched p) s₁ es :=
          (traffic sha256Hex).along_of_invariant
            (I := fun u => u.requests p = some (.ended .failed))
            (fun _ _ _ hp hstep => (ended_step hstep hp).1)
            (fun _ _ _ hp hstep => (ended_step hstep hp).2) hfailed
        have hfinal := (traffic sha256Hex).invariant_run
          (I := fun u => u.requests p = some (.ended .failed))
          (fun _ _ _ hp hstep => (ended_step hstep hp).1) hfailed hrest
        exact .inl ⟨halong.cons _ hs₁ hkept, .inr hfinal⟩
      · have halong : (traffic sha256Hex).Along (Untouched p) s₁ es :=
          (traffic sha256Hex).along_of_invariant (I := fun u => u.Done p answer)
            (fun _ _ _ hp hstep => (done_step hstep hp).1)
            (fun _ _ _ hp hstep => (done_step hstep hp).2) hdone
        have hfinal := (traffic sha256Hex).invariant_run (I := fun u => u.Done p answer)
          (fun _ _ _ hp hstep => (done_step hstep hp).1) hdone hrest
        exact .inr ⟨answer, .here _ hs₁ hcommit halong, hfinal⟩

/-- A request that has answered has committed before. -/
theorem once_of_ended {t : Traffic} {es : List TrafficEvent} (hopen : s.Open p)
    (hrun : (traffic sha256Hex).run s es = some t) {answer : AuthAnswer}
    (hanswer : answer ≠ .failed) (hp : t.requests p = some (.ended answer)) :
    (traffic sha256Hex).Once (Untouched p) (Commits p answer) s es := by
  rcases fate_of_run hopen hrun with ⟨-, hopen' | hfailed⟩ | ⟨answer', honce, hdone⟩
  · exact (hopen' _ hp).elim
  · rw [hp, Option.some.injEq, RequestPhase.ended.injEq] at hfailed
    exact absurd hfailed hanswer
  · rcases hdone with hdone | hdone | hdone
    · cases hp.symm.trans hdone
    · rw [hp, Option.some.injEq, RequestPhase.ended.injEq] at hdone
      rwa [hdone]
    · rw [hp, Option.some.injEq, RequestPhase.ended.injEq] at hdone
      exact absurd hdone hanswer

/-! ### Who regenerates -/

/-- A phase of `regenerate_mcp_token` for this user. -/
def RequestPhase.Regenerates (u : Uuid) : RequestPhase → Prop
  | .revoke v _ => v = u
  | .revoking v _ _ => v = u
  | .regenerated v _ => v = u
  | .committed (.bearer v _) => v = u
  | .ended (.bearer v _) => v = u
  | .ended .failed => True
  | _ => False

/-- Request `p` is a `regenerate_mcp_token` of this user. -/
def Traffic.Regenerating (s : Traffic) (p : ℕ) (u : Uuid) : Prop :=
  ∃ phase, s.requests p = some phase ∧ phase.Regenerates u

theorem regenerating_turn {at_ : ℤ} {draw : BearerDraw} {phase : RequestPhase} {u : Uuid}
    (hphase : phase.Regenerates u) (h : turn sha256Hex s p at_ draw phase = some s') :
    s'.Regenerating p u := by
  have hself {requests : ℕ → Option RequestPhase} {phase' : RequestPhase}
      (hphase' : phase'.Regenerates u) : ∃ phase, Function.update requests p (some phase') p =
        some phase ∧ phase.Regenerates u := ⟨phase', Function.update_self .., hphase'⟩
  cases phase with
  | revoke v last =>
      cases h
      exact hself hphase
  | revoking v last found =>
      cases found with
      | nil =>
          obtain ⟨result, -, rfl⟩ := Option.map_eq_some_iff.mp h
          cases result with
          | some tables => exact hself hphase
          | none =>
              refine hself ?_
              split
              · trivial
              · exact hphase
      | cons i found =>
          simp only [turn] at h
          split at h
          · split at h
            · cases h
              exact hself hphase
            · cases h
              exact hself hphase
          · cases h
  | regenerated v plaintext =>
      obtain ⟨tables, -, rfl⟩ := Option.map_eq_some_iff.mp h
      exact hself hphase
  | committed answer =>
      cases h
      cases answer with
      | bearer v plaintext => exact hself hphase
      | redirect how => exact hphase.elim
      | failed => exact hphase.elim
  | login how left => exact hphase.elim
  | ended answer => cases h

theorem requests_isSome_step (hstep : (traffic sha256Hex).step s e = some s')
    (hp : (s.requests p).isSome) : (s'.requests p).isSome ∧ ∀ u, e ≠ .regenerate p u := by
  have heffect := step_effect hstep
  refine ⟨?_, ?_⟩
  · by_cases hactor : p = e.actor
    · subst hactor
      cases heffect with
      | _ => exact Option.isSome_iff_exists.mpr ⟨_, Function.update_self ..⟩
    · rwa [requests_of_ne heffect hactor]
  · rintro u rfl
    replace hstep : s.step sha256Hex (.regenerate p u) = some s' := hstep
    simp only [Traffic.step] at hstep
    split at hstep
    · rename_i hnone
      rw [Option.isNone_iff_eq_none.mp hnone.1] at hp
      cases hp
    · cases hstep

theorem regenerating_step {u : Uuid} (hp : s.Regenerating p u)
    (hstep : (traffic sha256Hex).step s e = some s') : s'.Regenerating p u := by
  obtain ⟨phase, hp, hphase⟩ := hp
  by_cases hactor : e.actor = p
  · subst hactor
    replace hstep : s.step sha256Hex e = some s' := hstep
    cases e with
    | callback p at_ who draws =>
        simp only [Traffic.step, TrafficEvent.actor] at hstep hp
        rw [hp] at hstep
        cases hstep
    | regenerate p v =>
        simp only [Traffic.step, TrafficEvent.actor] at hstep hp
        rw [hp] at hstep
        cases hstep
    | turn p at_ draw =>
        obtain ⟨phase', hp', hturn⟩ := Option.bind_eq_some_iff.mp hstep
        obtain rfl := Option.some.inj (hp.symm.trans hp')
        exact regenerating_turn hphase hturn
    | fail p =>
        simp only [Traffic.step] at hstep
        split at hstep
        · cases hstep
        · cases hstep
        · cases hstep
          exact ⟨_, Function.update_self .., trivial⟩
    | lostCommit p =>
        obtain ⟨answer, -, hcommit⟩ := Option.bind_eq_some_iff.mp hstep
        obtain ⟨tables, -, rfl⟩ := Option.map_eq_some_iff.mp hcommit
        exact ⟨_, Function.update_self .., trivial⟩
  · exact ⟨phase, (requests_of_ne (step_effect hstep) (Ne.symm hactor)).trans hp, hphase⟩

/-- The run has this request as a `regenerate_mcp_token` of the user. -/
theorem regenerating_of_run {t : Traffic} {es : List TrafficEvent} {u : Uuid}
    (hrun : (traffic sha256Hex).run s es = some t) (hmem : .regenerate p u ∈ es) :
    t.Regenerating p u := by
  refine (traffic sha256Hex).invariant_history
    (I := fun past s => .regenerate p u ∈ past → s.Regenerating p u) ?_ (fun h => nomatch h)
    hrun hmem
  intro past s e s' hpast hstep hmem
  rcases List.mem_append.mp hmem with hmem | hmem
  · exact regenerating_step (hpast hmem) hstep
  · obtain rfl := List.mem_singleton.mp hmem
    replace hstep : s.step sha256Hex (.regenerate p u) = some s' := hstep
    simp only [Traffic.step] at hstep
    split at hstep
    · cases hstep
      exact ⟨_, Function.update_self .., rfl⟩
    · cases hstep

/-- What a `regenerate_mcp_token` commits is a bearer of its own user. -/
theorem answer_of_regenerate {P : Traffic → TrafficEvent → Traffic → Prop}
    {es : List TrafficEvent} {t : Traffic} {u : Uuid} {answer : AuthAnswer}
    (hrun : (traffic sha256Hex).run s es = some t) (hmem : .regenerate p u ∈ es)
    (honce : (traffic sha256Hex).Once P (Commits p answer) s es) :
    ∃ plaintext, answer = .bearer u plaintext := by
  obtain ⟨es₁, e, es₂, s₁, s₂, rfl, hrun₁, hstep, ⟨hactor, hcommits, -⟩, -, -⟩ := honce
  obtain ⟨phase, hp, hphase⟩ := Option.bind_eq_some_iff.mp hcommits
  obtain ⟨hsome, hnot⟩ := requests_isSome_step hstep (Option.isSome_iff_exists.mpr ⟨phase, hp⟩)
  have hbefore : .regenerate p u ∈ es₁ := by
    rcases List.mem_append.mp hmem with hmem | hmem
    · exact hmem
    · rcases List.mem_cons.mp hmem with heq | hmem
      · exact absurd heq.symm (hnot u)
      · -- after its COMMIT the request has begun, so it does not begin
        rw [System.run_append, hrun₁, Option.bind_some, System.run_cons, hstep,
          Option.bind_some] at hrun
        have halong : (traffic sha256Hex).Along (fun _ e _ => ∀ u, e ≠ .regenerate p u) s₂ es₂ :=
          (traffic sha256Hex).along_of_invariant (I := fun s => (s.requests p).isSome)
            (fun _ _ _ hp hstep => (requests_isSome_step hstep hp).1)
            (fun _ _ _ hp hstep => (requests_isSome_step hstep hp).2) hsome
        obtain ⟨fs, gs, rfl⟩ := List.append_of_mem hmem
        rw [System.run_append] at hrun
        obtain ⟨s₃, hs₃, hrun⟩ := Option.bind_eq_some_iff.mp hrun
        obtain ⟨s₄, hs₄, -⟩ := System.run_cons_eq_some _ |>.mp hrun
        exact absurd rfl (halong.at_step _ hs₃ hs₄ u)
  obtain ⟨phase', hp', hregenerates⟩ := regenerating_of_run hrun₁ hbefore
  obtain rfl := Option.some.inj (hp.symm.trans hp')
  rcases RequestPhase.commits_cases hphase with ⟨v, plaintext, rfl, rfl⟩ | ⟨how, rfl, rfl⟩
  · obtain rfl : v = u := hregenerates
    exact ⟨plaintext, rfl⟩
  · exact hregenerates.elim

/-! ### The law of the bearers -/

/-- The COMMIT of a new bearer, and what it leaves. -/
def Renews (sha256Hex : Bytes → String) (p : ℕ) (u : Uuid) (plaintext : Token) (s : Traffic)
    (e : TrafficEvent) (s' : Traffic) : Prop :=
  Commits p (.bearer u plaintext) s e s' ∧
    Replaces sha256Hex u plaintext s.tables.committed s'.tables.committed

theorem renews_of_commits {u : Uuid} {plaintext : Token} {es : List TrafficEvent}
    (h : Consistent sha256Hex s)
    (honce : (traffic sha256Hex).Once (Untouched p) (Commits p (.bearer u plaintext)) s es) :
    (traffic sha256Hex).Once (Untouched p) (Renews sha256Hex p u plaintext) s es := by
  refine honce.mono _ (I := Consistent sha256Hex) (fun _ _ _ h hstep => consistent_step h hstep)
    (fun s e s' h hstep hcommit => ⟨hcommit, ?_⟩) h
  exact (consistent_commit h hcommit.2.1 hcommit.2.2).2.2 u plaintext rfl

/-- From a state in which every user is settled and nothing is in flight, in every run:
every committed state is settled; a revoked bearer stays as it is; a request answered
200 has changed what is committed in one step, its COMMIT, which made the bearer of its
plaintext the active one; and a `regenerate_mcp_token` that fails has changed nothing, or
has failed after such a COMMIT. -/
theorem settled_of_run {t : Traffic} {es : List TrafficEvent} (hquiet : Quiet s)
    (hrun : (traffic sha256Hex).run s es = some t) :
    Settled t.tables.committed ∧
    (traffic sha256Hex).Along
      (fun s _ s' => RevokedKept s.tables.committed s'.tables.committed) s es ∧
    (∀ p u plaintext, t.requests p = some (.ended (.bearer u plaintext)) →
      (traffic sha256Hex).Once (Untouched p) (Renews sha256Hex p u plaintext) s es) ∧
    ∀ p u, .regenerate p u ∈ es → t.requests p = some (.ended .failed) →
      (traffic sha256Hex).Along (Untouched p) s es ∨
        ∃ plaintext,
          (traffic sha256Hex).Once (Untouched p) (Renews sha256Hex p u plaintext) s es := by
  have hconsistent := consistent_quiet sha256Hex hquiet
  have hkeep : ∀ s e s', Consistent sha256Hex s → (traffic sha256Hex).step s e = some s' →
      Consistent sha256Hex s' := fun _ _ _ h hstep => consistent_step h hstep
  have hopen (p : ℕ) : s.Open p := open_of_none (hquiet.requests p)
  refine ⟨((traffic sha256Hex).invariant_run hkeep hconsistent hrun).settled,
    System.along_of_invariant _ hkeep (fun s e s' h hstep => revokedKept_step h hstep) hconsistent,
    fun p u plaintext hp => ?_, fun p u hmem hp => ?_⟩
  · exact renews_of_commits hconsistent (once_of_ended (hopen p) hrun (by simp) hp)
  · rcases fate_of_run (hopen p) hrun with ⟨halong, -⟩ | ⟨answer, honce, -⟩
    · exact .inl halong
    · obtain ⟨plaintext, rfl⟩ := answer_of_regenerate hrun hmem honce
      exact .inr ⟨plaintext, renews_of_commits hconsistent honce⟩

/-- One user with its tokens and a bearer. -/
def oneUser : Traffic where
  tables :=
    { committed :=
        { (default : Database) with
          users := ⟨[⟨1, 1, "user@x", "User", 0, 0⟩], List.nodup_singleton _⟩
          oauthTokens := ⟨[⟨3, 1, [], [], 0, 0, 0⟩], List.nodup_singleton _⟩
          mcpBearers := ⟨[⟨2, 1, "old", none, 0, none, none⟩], List.nodup_singleton _⟩ }
      pending := fun _ => []
      holder := fun _ => none }
  requests := fun _ => none

theorem quiet_oneUser : Quiet oneUser where
  pending := fun _ => rfl
  requests := fun _ => rfl
  settled := by
    intro user huser
    rw [List.mem_singleton.mp huser]
    refine ⟨⟨⟨3, 1, [], [], 0, 0, 0⟩, ⟨List.mem_singleton_self _, rfl⟩, ?_⟩,
      ⟨⟨2, 1, "old", none, 0, none, none⟩, ⟨List.mem_singleton_self _, rfl, rfl⟩, ?_⟩⟩
    · exact fun t ht => List.mem_singleton.mp ht.1
    · exact fun b hb => List.mem_singleton.mp hb.1

def drawA : BearerDraw := ⟨4, ⟨"a", by decide, by decide⟩⟩

def drawB : BearerDraw := ⟨5, ⟨"b", by decide, by decide⟩⟩

def drawC : BearerDraw := ⟨6, ⟨"c", by decide, by decide⟩⟩

/-- Two requests find the same bearer to revoke; the second one has to try
again after the first has committed. -/
def race : List TrafficEvent :=
  [.regenerate 0 1, .regenerate 1 1, .turn 0 1 drawA, .turn 1 1 drawB, .turn 0 1 drawA,
    .turn 0 1 drawA, .turn 0 1 drawA, .turn 0 1 drawA, .turn 1 2 drawB, .turn 1 2 drawB,
    .turn 1 2 drawC, .turn 1 2 drawC, .turn 1 2 drawC, .turn 1 2 drawC, .turn 1 2 drawC]

/-- The second one answers 200, with the plaintext of its second attempt. -/
theorem settled_of_run_race : ∃ t, (traffic plainHash).run oneUser race = some t ∧
    Settled t.tables.committed ∧
    (traffic plainHash).Once (Untouched 1) (Renews plainHash 1 1 drawC.bearer) oneUser race := by
  have hanswer : ((traffic plainHash).run oneUser race).map (fun t => t.requests 1) =
      some (some (.ended (.bearer 1 drawC.bearer))) := by decide +kernel
  obtain ⟨t, ht, hp⟩ := Option.map_eq_some_iff.mp hanswer
  obtain ⟨hsettled, -, hbearer, -⟩ := settled_of_run quiet_oneUser ht
  exact ⟨t, ht, hsettled, hbearer 1 1 drawC.bearer hp⟩

/-- A request alone, up to its COMMIT: then reading the new row back raises. -/
def failsAfterCommit : List TrafficEvent :=
  [.regenerate 0 1, .turn 0 1 drawA, .turn 0 1 drawA, .turn 0 1 drawA, .turn 0 1 drawA, .fail 0]

/-- It fails, and there is a bearer more. -/
theorem failed_regenerate_replaces : ∃ s es t, Quiet s ∧ .regenerate 0 1 ∈ es ∧
    (∀ e ∈ es, TrafficEvent.actor e = 0) ∧ (traffic plainHash).run s es = some t ∧
    t.requests 0 = some (.ended .failed) ∧
    t.tables.committed.mcpBearers.rows ≠ s.tables.committed.mcpBearers.rows := by
  have hend : ((traffic plainHash).run oneUser failsAfterCommit).map
      (fun t => (t.requests 0, t.tables.committed.mcpBearers.rows.length)) =
        some (some (.ended .failed), 2) := by decide +kernel
  obtain ⟨t, ht, heq⟩ := Option.map_eq_some_iff.mp hend
  obtain ⟨hp, hlength⟩ := Prod.mk.inj heq
  refine ⟨oneUser, failsAfterCommit, t, quiet_oneUser, List.mem_cons_self, by decide, ht, hp,
    fun hrows => ?_⟩
  rw [hrows] at hlength
  cases hlength

end Runs

end TranscriptionApi.Auth
