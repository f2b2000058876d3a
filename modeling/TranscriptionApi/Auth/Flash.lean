import TranscriptionApi.Auth.Browser

/-!
The one-shot bearer plaintext.

`callback` leaves the plaintext of a new bearer in the flash cookie, and the
next `/auth/me` within a minute returns it beside the id of the bearer it finds
active for the session's user. Nothing ties the two together: the cookie does
not say whose it is, `logout` and a later login leave it in the jar, and
`regenerate-mcp-token` revokes its bearer. They belong together exactly as long
as the session is that of the user whose first login set the cookie, and that
user has not regenerated.
-/

namespace TranscriptionApi.Auth

open Db Lib Mcp Python

/-- The plaintext `/auth/me` returns is that of the bearer whose id it returns,
an active bearer of the session's user. -/
def PlaintextMatches (site : Site) (b : Browser) (e : BrowserEvent) (_ : Browser) : Prop :=
  e = .request .me → ∀ user answer info text, currentUserWeb b = .ok user →
    (handle site b .me).2 = .me answer → answer.bearer = some info → info.plaintext = some text →
      ∃ row ∈ b.db.mcpBearers.rows, uuidStr row.id = info.id ∧
        hashBearer site.sha256Hex text = some row.tokenHash ∧ row.userId = user.id ∧
        row.revokedAt = none

/-- An `/auth/me` that is sent the flash cookie is on a session of the user
whose first login set it, and who has not regenerated since. -/
def FlashIsOwn (b : Browser) (e : BrowserEvent) (_ : Browser) : Prop :=
  e = .request .me → ∀ user, currentUserWeb b = .ok user → (sent b.now b.jar.flash).isSome →
    b.flashUser = some user.id ∧ b.regenerated = false

/-- The bearer of the flash cookie is stored, and the history says whose it is
and whether it is revoked. -/
structure Remembered (site : Site) (b : Browser) : Prop where
  accounts : Accounts b.db
  flash : ∀ c, b.jar.flash = some c → ∃ row ∈ b.db.mcpBearers.rows,
    b.flashUser = some row.userId ∧ row.tokenHash = c.value.hash site.sha256Hex ∧
      (row.revokedAt = none ↔ b.regenerated = false)

section

variable {site : Site} {b b' : Browser}

theorem remembered_fresh (hb : Fresh b) : Remembered site b where
  accounts := hb.accounts
  flash := fun c hc => by
    rw [hb.flash] at hc
    cases hc

theorem remembered_login (hb : Remembered site b) (state : String) :
    Remembered site (login b state).1 := by
  unfold login
  split
  · split
    · exact hb
    · exact ⟨hb.accounts, hb.flash⟩
  · exact ⟨hb.accounts, hb.flash⟩

theorem remembered_callback (hb : Remembered site b) (state : String)
    (who : Except String Identity) (draws : LoginDraws) :
    Remembered site (callback site b state who draws).1 := by
  unfold callback
  split
  · exact hb
  · cases who with
    | error code => exact hb
    | ok who =>
        dsimp only
        cases hupsert : upsertUser site.sha256Hex b.now who draws b.db with
        | none => exact hb
        | some r =>
            obtain ⟨user, bearer, db⟩ := r
            rcases upsertUser_eq_some hupsert with ⟨rfl, rfl⟩ | ⟨rfl, hcreate⟩
            · -- a later login leaves the bearers and the flash cookie alone
              exact ⟨accounts_refreshUser hb.accounts who user, hb.flash⟩
            · refine ⟨accounts_createUser hb.accounts hcreate, ?_⟩
              intro c hc
              obtain rfl := Option.some.inj hc
              obtain ⟨hid, -, hinsert⟩ := createUser_eq_some hcreate
              have hrows := (insertBearer_eq_some hinsert).1
              refine ⟨bearerRow site.sha256Hex b.now draws.userId draws.bearerId draws.bearer
                "initial", ?_, ?_, rfl, ?_⟩
              · show _ ∈ db.mcpBearers.rows
                rw [hrows]
                exact List.mem_append_right _ List.mem_cons_self
              · show some user.id = some draws.userId
                rw [hid]
              · exact ⟨fun _ => rfl, fun _ => rfl⟩

theorem remembered_me (hb : Remembered site b) : Remembered site (me site b).1 := by
  unfold me
  split
  · exact hb
  · refine ⟨hb.accounts, fun c hc => ?_⟩
    dsimp only at hc
    split at hc
    · cases hc
    · exact hb.flash c hc

theorem remembered_regenerate (hb : Remembered site b) (first second : BearerDraw) :
    Remembered site (regenerate site b first second).1 := by
  unfold regenerate
  split
  · exact hb
  · rename_i user huser
    cases hregen : regenerateMcpToken site.sha256Hex b.now user.id first second b.db with
    | none => exact hb
    | some r =>
        obtain ⟨row, bearer, db⟩ := r
        obtain ⟨draw, -, honce⟩ := regenerateMcpToken_eq_some hregen
        refine ⟨accounts_regenerateOnce hb.accounts honce, fun c hc => ?_⟩
        obtain ⟨old, hold, hflash, hhash, hrevoked⟩ := hb.flash c hc
        obtain ⟨-, -, hrows⟩ := regenerateOnce_eq_some honce
        refine ⟨revoked b.now user.id old, ?_, ?_, ?_, ?_⟩
        · show _ ∈ db.mcpBearers.rows
          rw [hrows]
          exact List.mem_append_left _ (List.mem_map_of_mem hold)
        · rw [revoked_userId]
          exact hflash
        · rw [revoked_tokenHash]
          exact hhash
        · -- the cookie's bearer is revoked now if it was, or is this user's
          rw [revoked_revokedAt, hrevoked]
          simp [hflash]

theorem remembered_step {e : BrowserEvent} (hb : Remembered site b)
    (h : (browsing site).step b e = some b') : Remembered site b' := by
  cases e with
  | tick d =>
      obtain rfl := Option.some.inj h
      exact ⟨hb.accounts, hb.flash⟩
  | request r =>
      obtain rfl := Option.some.inj h
      cases r with
      | login state => exact remembered_login hb state
      | callback state who draws => exact remembered_callback hb state who draws
      | me => exact remembered_me hb
      | regenerate first second => exact remembered_regenerate hb first second
      | logout => exact ⟨hb.accounts, hb.flash⟩

/-- The SELECT of `/auth/me` finds the active bearer. -/
theorem activeBearer_eq {db : Database} (hdb : Accounts db) {row : McpBearer}
    (hrow : row ∈ db.mcpBearers.rows) (hactive : row.revokedAt = none) :
    activeBearer db row.userId = some row := by
  have honly : ∀ r ∈ scopedSelect db.mcpBearers McpBearer.userId row.userId
      (fun r => r.userId = row.userId && r.revokedAt.isNone), r = row := by
    intro r hr
    obtain ⟨hmem, hpick, huser⟩ := mem_scopedSelect.mp hr
    simp only [Bool.and_eq_true, Option.isNone_iff_eq_none] at hpick
    exact hdb.oneActive r hmem row hrow huser hpick.2 hactive
  have hfound : row ∈ scopedSelect db.mcpBearers McpBearer.userId row.userId
      (fun r => r.userId = row.userId && r.revokedAt.isNone) := by
    apply mem_scopedSelect.mpr
    simp [hrow, hactive]
  unfold activeBearer
  cases hsorted : (scopedSelect db.mcpBearers McpBearer.userId row.userId
      (fun r => r.userId = row.userId && r.revokedAt.isNone)).mergeSort
        (fun r r' => r'.createdAt ≤ r.createdAt) with
  | nil =>
      rw [← List.mem_mergeSort, hsorted] at hfound
      cases hfound
  | cons r rest =>
      rw [List.head?_cons, honly r]
      rw [← List.mem_mergeSort, hsorted]
      exact List.mem_cons_self

theorem sent_eq_some {α : Type} {now : ℤ} {cookie : Option (Cookie α)} {value : α}
    (h : sent now cookie = some value) : ∃ c, cookie = some c ∧ c.value = value := by
  obtain ⟨c, hc, hvalue⟩ := Option.map_eq_some_iff.mp h
  exact ⟨c, (Option.filter_eq_some_iff.mp hc).1, hvalue⟩

theorem currentUserWeb_eq_ok {user : User} (h : currentUserWeb b = .ok user) :
    user ∈ b.db.users.rows := by
  unfold currentUserWeb at h
  split at h
  · cases h
  · split at h
    · cases h
    · split at h
      · cases h
      · rename_i hfind
        cases h
        exact Table.mem_of_find? hfind

theorem handle_me {user : User} (h : currentUserWeb b = .ok user) :
    (handle site b .me).2 = .me (meAnswer site b user (sent b.now b.jar.flash)) := by
  simp only [handle, me, h]

theorem plaintextMatches_iff_step {e : BrowserEvent} (hb : Remembered site b) :
    PlaintextMatches site b e b' ↔ FlashIsOwn b e b' := by
  refine forall_congr' fun _ => ?_
  constructor
  · intro hmatches user huser hsent
    obtain ⟨token, htoken⟩ := Option.isSome_iff_exists.mp hsent
    obtain ⟨row, hrow, hown, hactive⟩ := hb.accounts.active user (currentUserWeb_eq_ok huser)
    have hbearer := activeBearer_eq hb.accounts hrow hactive
    rw [hown] at hbearer
    obtain ⟨row', hrow', -, hhash, hown', hactive'⟩ := hmatches user _ (bearerInfo row (some token))
      token.text huser (handle_me huser) (by simp [meAnswer, hbearer, htoken]) rfl
    -- the bearer it matches is the one the cookie was set with
    obtain ⟨c, hc, rfl⟩ := sent_eq_some htoken
    obtain ⟨row'', hrow'', hflash, hhash'', hrevoked⟩ := hb.flash c hc
    rw [hashBearer_token, Option.some.injEq, ← hhash''] at hhash
    obtain rfl := hb.accounts.hashes row'' hrow'' row' hrow' hhash
    exact ⟨hflash.trans (congrArg some hown'), hrevoked.mp hactive'⟩
  · intro hown user answer info text huser hanswer hinfo htext
    rw [handle_me huser] at hanswer
    obtain rfl := Response.me.inj hanswer
    obtain ⟨row, hbearer, rfl⟩ := Option.map_eq_some_iff.mp hinfo
    obtain ⟨token, htoken, rfl⟩ := Option.map_eq_some_iff.mp htext
    obtain ⟨hflashUser, hregenerated⟩ := hown user huser (by rw [htoken]; rfl)
    obtain ⟨c, hc, rfl⟩ := sent_eq_some htoken
    obtain ⟨row', hrow', hflash, hhash, hrevoked⟩ := hb.flash c hc
    have huser' : row'.userId = user.id := Option.some.inj (hflash.symm.trans hflashUser)
    have hactive := hrevoked.mpr hregenerated
    have hsame := activeBearer_eq hb.accounts hrow' hactive
    rw [huser', hbearer, Option.some.injEq] at hsame
    subst hsame
    exact ⟨row, hrow', rfl, by rw [hashBearer_token, hhash], huser', hactive⟩

end

/-- Over every sequence of requests of one browser, `/auth/me` returns a
plaintext only beside its own bearer's id, exactly when every flash cookie is
returned to the user it was set for, before the bearer is regenerated. -/
theorem plaintextMatches_iff (site : Site) {b : Browser} (hb : Fresh b)
    (es : List BrowserEvent) :
    (browsing site).Along (PlaintextMatches site) b es ↔
      (browsing site).Along FlashIsOwn b es :=
  (browsing site).along_iff (I := Remembered site)
    (fun _ _ _ hs hstep _ => remembered_step hs hstep)
    (fun _ _ _ hs _ => plaintextMatches_iff_step hs) (remembered_fresh hb)

/-! ### Schedules -/

/-- SHA-256 replaced by the identity on the text. -/
def plainSite : Site where
  settings := default
  sha256Hex := fun bytes => String.ofList (bytes.map fun b => Char.ofNat b.toNat)

def emptyBrowser : Browser where
  now := 0
  db := default
  jar := ⟨none, none, none⟩
  flashUser := none
  regenerated := false

theorem fresh_emptyBrowser : Fresh emptyBrowser where
  accounts := ⟨fun _ ha => absurd ha List.not_mem_nil, fun _ ha => absurd ha List.not_mem_nil,
    fun _ hu => absurd hu List.not_mem_nil⟩
  oauthState := rfl
  session := rfl
  flash := rfl

def firstBearer : Token := ⟨"first", by decide, by decide⟩

def secondBearer : Token := ⟨"second", by decide, by decide⟩

/-- The first login of a user. -/
def firstLogin : List BrowserEvent :=
  [.request (.login "state"),
    .request (.callback "state" (.ok ⟨5, "user@example.com", "User", [], [], 3600⟩)
      ⟨1, 2, 3, firstBearer⟩)]

theorem plaintextMatches_iff_firstLogin :
    (browsing plainSite).Along (PlaintextMatches plainSite) emptyBrowser
        (firstLogin ++ [.request .me]) ↔
      (browsing plainSite).Along FlashIsOwn emptyBrowser (firstLogin ++ [.request .me]) :=
  plaintextMatches_iff plainSite fresh_emptyBrowser _

/-- The user regenerates the bearer before `/auth/me` has shown the first one. -/
theorem plaintextMatches_fails :
    ∃ (site : Site) (b : Browser) (es : List BrowserEvent), Fresh b ∧
      ¬ (browsing site).Along (PlaintextMatches site) b es := by
  let es := firstLogin ++ [.request (.regenerate ⟨4, secondBearer⟩ ⟨6, secondBearer⟩)]
  have hstale : ((browsing plainSite).run emptyBrowser es).any (fun t =>
      (currentUserWeb t).isOk && (sent t.now t.jar.flash).isSome && t.regenerated) = true := by
    decide +kernel
  obtain ⟨t, ht, hstale⟩ := (Option.any_eq_true _ _).mp hstale
  simp only [Bool.and_eq_true] at hstale
  obtain ⟨⟨hsession, hflash⟩, hregenerated⟩ := hstale
  refine ⟨plainSite, emptyBrowser, es ++ [.request .me], fresh_emptyBrowser, fun h => ?_⟩
  have hremembered := (browsing plainSite).invariant_run (I := Remembered plainSite)
    (fun _ _ _ => remembered_step) (remembered_fresh fresh_emptyBrowser) ht
  have hmatches := h.at_step _ ht rfl
  have hown := (plaintextMatches_iff_step hremembered).mp hmatches rfl
  cases huser : currentUserWeb t with
  | error reason =>
      rw [huser] at hsession
      cases hsession
  | ok user =>
      have hfalse := (hown user huser hflash).2
      rw [hregenerated] at hfalse
      cases hfalse

end TranscriptionApi.Auth
