import TranscriptionApi.Uploads.Restart

/-!
What `request_upload_url` hands out, as a capability.

The nonce of the URL finds the session, and the bearer opens it. Nothing but the
call writes either, and `nonce` is unique, so the session under a nonce is the
one of the call for good, also after the process has been restarted. What can
close it is its one upload or the end of its grace period; a purge or a start that
rewrites the status comes after one of the two. The upload closes it when it is
committed, also if the client never gets the answer.
-/

namespace TranscriptionApi.Uploads

open Api Auth Db Lib Mcp Pipeline Python

/-- The columns that make the capability. -/
structure SameGrant (a b : UploadSession) : Prop where
  userId : b.userId = a.userId
  nonce : b.nonce = a.nonce
  uploadBearerHash : b.uploadBearerHash = a.uploadBearerHash
  kind : b.kind = a.kind
  expiresAt : b.expiresAt = a.expiresAt

theorem sameGrant_set (wr : Write) (r : UploadSession) : SameGrant r (wr.set r) := by
  cases wr with
  | _ => exact ⟨rfl, rfl, rfl, rfl, rfl⟩

theorem SameGrant.trans {a b c : UploadSession} (hab : SameGrant a b) (hbc : SameGrant b c) :
    SameGrant a c where
  userId := hbc.userId.trans hab.userId
  nonce := hbc.nonce.trans hab.nonce
  uploadBearerHash := hbc.uploadBearerHash.trans hab.uploadBearerHash
  kind := hbc.kind.trans hab.kind
  expiresAt := hbc.expiresAt.trans hab.expiresAt

/-- One session to a nonce. -/
def NoncesUnique (w : World) : Prop :=
  ∀ i j r r', w.session? i = some r → w.session? j = some r' → r.nonce = r'.nonce → i = j

/-- A session that is no longer `requested` has had its upload, or is past its
grace period. -/
def Retired (sv : Service) (w : World) : Prop :=
  ∀ i r, w.session? i = some r → r.status ≠ .requested →
    r.uploadedAt.isSome ∨ PastGrace sv w.now r

section Step

variable {sv : Service} {w w' : World} {e : Event}

/-- A session keeps what was granted with it. -/
theorem SessionsChange.sameGrant (h : SessionsChange w w' e) {i : Uuid} {r : UploadSession}
    (hr : w.session? i = some r) : ∃ r', w'.session? i = some r' ∧ SameGrant r r' := by
  have hrefl : SameGrant r r := ⟨rfl, rfl, rfl, rfl, rfl⟩
  cases h with
  | same h =>
      refine ⟨r, ?_, hrefl⟩
      rw [World.session?, h]
      exact hr
  | requested row hfree hnonce hstatus huploaded hconsumed hbound h =>
      have hne : row.id ≠ i := by
        rintro rfl
        rw [hfree] at hr
        cases hr
      exact ⟨r, by rw [h, if_neg hne, hr], hrefl⟩
  | committed p wr hc h =>
      refine ⟨_, by rw [h, hr, Option.map_some], ?_⟩
      split
      · exact sameGrant_set wr r
      · exact hrefl

theorem noncesUnique_step (hw : NoncesUnique w) (h : (service sv).step w e = some w') :
    NoncesUnique w' := by
  intro i j r r' hi hj hsame
  cases (step_moves h).sessions with
  | same h =>
      rw [World.session?, h] at hi hj
      exact hw i j r r' hi hj hsame
  | committed p wr hc h =>
      rw [h] at hi hj
      obtain ⟨a, ha, rfl⟩ := Option.map_eq_some_iff.mp hi
      obtain ⟨b, hb, rfl⟩ := Option.map_eq_some_iff.mp hj
      have hnonce (i : Uuid) (r : UploadSession) :
          (if i ∈ wr.ids then wr.set r else r).nonce = r.nonce := by
        split
        · exact (sameGrant_set wr r).nonce
        · rfl
      rw [hnonce, hnonce] at hsame
      exact hw i j a b ha hb hsame
  | requested row hfree hnonce hstatus huploaded hconsumed hbound h =>
      rw [h] at hi hj
      split at hi
      · rename_i hid
        split at hj
        · rename_i hjd
          exact hid.symm.trans hjd
        · cases hi
          exact absurd hsame.symm (hnonce j r' hj)
      · split at hj
        · cases hj
          exact absurd hsame (hnonce i r hi)
        · exact hw i j r r' hi hj hsame

/-- Each COMMIT that takes a session out of `requested` has checked why. -/
theorem retired_set (hw : Sound sv w) {p : ℕ} {wr : Write}
    (hp : w.handlers p = some (.committing wr)) {i : Uuid} (hi : i ∈ wr.ids) {r : UploadSession}
    (hr : w.session? i = some r) : (wr.set r).uploadedAt.isSome ∨ PastGrace sv w.now r := by
  have hfacts := hw.facts p _ hp
  have hknown := hw.known p _ hp
  cases wr with
  | uploaded row at_ bytes => exact .inl rfl
  | imageUploaded row at_ img => exact .inl rfl
  | consumed row at_ tx result =>
      have hstarted : Started row := hfacts
      obtain rfl := List.mem_singleton.mp hi
      obtain ⟨r', hr', hlead⟩ := hknown row List.mem_cons_self
      obtain rfl := Option.some.inj (hr.symm.trans hr')
      exact .inl (hlead.uploadedAt hstarted.uploadedAt)
  | expired rows =>
      obtain ⟨row, hrow, rfl⟩ := List.mem_map.mp hi
      obtain ⟨r', hr', hlead⟩ := hknown row hrow
      obtain rfl := Option.some.inj (hr.symm.trans hr')
      have hpast : row.expiresAt + sv.settings.grace < w.now := hfacts row hrow
      right
      show r.expiresAt + sv.settings.grace < w.now
      rw [hlead.expiresAt]
      exact hpast

theorem retired_step (hs : Sound sv w) (hw : Retired sv w)
    (h : (service sv).step w e = some w') : Retired sv w' := by
  have hmoves := step_moves h
  have hlater {r : UploadSession} (hr : r.uploadedAt.isSome ∨ PastGrace sv w.now r) :
      r.uploadedAt.isSome ∨ PastGrace sv w'.now r :=
    hr.imp_right fun hpast => hpast.mono hmoves.now_le
  intro i r hr hstatus
  cases hmoves.sessions with
  | same h =>
      rw [World.session?, h] at hr
      exact hlater (hw i r hr hstatus)
  | requested row hfree hnonce hrequested huploaded hconsumed hbound h =>
      rw [h] at hr
      split at hr
      · cases hr
        exact absurd hrequested hstatus
      · exact hlater (hw i r hr hstatus)
  | committed p wr hc h =>
      rw [h] at hr
      obtain ⟨r₀, hr₀, rfl⟩ := Option.map_eq_some_iff.mp hr
      split at hstatus
      · rename_i hi
        rw [if_pos hi]
        rcases retired_set hs hc.handler hi hr₀ with hup | hpast
        · exact .inl hup
        · right
          show (wr.set r₀).expiresAt + sv.settings.grace < w'.now
          rw [(sameGrant_set wr r₀).expiresAt]
          exact hpast.mono hmoves.now_le
      · rename_i hi
        rw [if_neg hi]
        exact hlater (hw i r₀ hr₀ hstatus)

end Step

/-! ### What opens a session -/

/-- What every state of the service has, for the nonces to be good for one
session each. -/
structure Granting (sv : Service) (w : World) : Prop where
  sound : Sound sv w
  nonces : NoncesUnique w
  retired : Retired sv w

theorem granting_initial {sv : Service} {w : World} (hw : Initial w) : Granting sv w where
  sound := sound_initial hw
  nonces := fun i j r r' hi hj hsame => by simp [session?_initial hw] at hi
  retired := fun i r hr hstatus => by simp [session?_initial hw] at hr

theorem granting_step {sv : Service} {w w' : World} {e : Event} (hw : Granting sv w)
    (h : (service sv).step w e = some w') : Granting sv w' where
  sound := sound_step hw.sound h
  nonces := noncesUnique_step hw.nonces h
  retired := retired_step hw.sound hw.retired h

/-- A restart keeps the table of sessions and the clock. -/
theorem granting_life {sv : Service} {w w' : World} {l : Life} (hw : Granting sv w)
    (h : (lives sv).step w l = some w') : Granting sv w' := by
  cases l with
  | turn e => exact granting_step hw h
  | restart boot =>
      obtain rfl := Option.some.inj h
      exact ⟨sound_restart hw.sound, hw.nonces, hw.retired⟩

theorem sameGrant_life {sv : Service} {w w' : World} {l : Life}
    (h : (lives sv).step w l = some w') {i : Uuid} {r : UploadSession}
    (hr : w.session? i = some r) : ∃ r', w'.session? i = some r' ∧ SameGrant r r' := by
  cases l with
  | turn e => exact (step_moves h).sessions.sameGrant hr
  | restart boot =>
      obtain rfl := Option.some.inj h
      exact ⟨r, hr, ⟨rfl, rfl, rfl, rfl, rfl⟩⟩

section Gate

variable {sv : Service} {w : World} {i : Uuid} {r : UploadSession}

/-- A session is open until its upload is committed or its grace is over. -/
theorem requested_iff (hw : Granting sv w) (hr : w.session? i = some r)
    (hnow : w.now ≤ r.expiresAt + sv.settings.grace) :
    r.status = .requested ↔ r.uploadedAt = none := by
  constructor
  · exact (hw.sound.rows i r hr).requested
  · intro hnone
    by_contra hstatus
    rcases hw.retired i r hr hstatus with hup | hpast
    · simp [hnone] at hup
    · exact absurd hnow (Int.not_le.mpr hpast)

/-- The lookup by nonce finds this session or none. -/
theorem selectRequested_eq (hw : Granting sv w) (hr : w.session? i = some r) :
    selectRequested w.db r.nonce = if r.status = .requested then some r else none := by
  have hmem : r ∈ w.db.uploadSessions.rows := Table.mem_of_find? hr
  have honly {r' : UploadSession} (hr' : selectRequested w.db r.nonce = some r') : r' = r := by
    obtain ⟨hfind, hnonce, -⟩ := selectRequested_spec hr'
    have hid := hw.nonces r'.id i r' r hfind hr hnonce
    exact Option.some.inj (hfind.symm.trans (hid ▸ hr))
  cases hselect : selectRequested w.db r.nonce with
  | none =>
      rw [if_neg]
      intro hstatus
      rw [selectRequested, List.find?_eq_none] at hselect
      exact hselect r hmem (by simp [hstatus])
  | some r' =>
      obtain rfl := honly hselect
      rw [if_pos (selectRequested_spec hselect).2.2]

/-- A request for this session gets past the checks exactly when it has the
bearer and the kind, and the session is still open. -/
theorem uploadGate_ok_iff (hw : Granting sv w) (hr : w.session? i = some r) {kind : UploadKind}
    {req : UploadRequest} (hnonce : req.sessionNonce = r.nonce) {row : UploadSession} :
    uploadGate sv.settings sv.sha256Hex kind w.now w.db req = .ok row ↔
      row = r ∧ (∃ token, parseBearer req.authorization = some token ∧
          hashBearer sv.sha256Hex token = some r.uploadBearerHash) ∧
        r.kind = kind ∧ w.now ≤ r.expiresAt + sv.settings.grace ∧ r.uploadedAt = none := by
  have hopen := requested_iff hw hr
  unfold uploadGate
  rw [hnonce, selectRequested_eq hw hr]
  cases htoken : parseBearer req.authorization with
  | none => simp
  | some token =>
      by_cases hstatus : r.status = .requested
      · simp only [if_pos hstatus]
        cases hcheck : checkSession sv.settings sv.sha256Hex kind w.now token r with
        | ok u =>
            obtain ⟨hnow, hkind, hhash⟩ := checkSession_ok sv.settings sv.sha256Hex hcheck
            simp [Except.map, hnow, hkind, hhash, (hopen hnow).mp hstatus, eq_comm]
        | error answer =>
            simp only [Except.map, reduceCtorEq, false_iff]
            rintro ⟨-, ⟨token', htoken', hhash⟩, hkind, hnow, -⟩
            obtain rfl := Option.some.inj htoken'
            have hnot : ¬ w.now > r.expiresAt + sv.settings.grace := Int.not_lt.mpr hnow
            simp [checkSession, hnot, hkind, hhash] at hcheck
      · simp only [if_neg hstatus, reduceCtorEq, false_iff]
        rintro ⟨-, -, -, hnow, hunused⟩
        exact hstatus ((hopen hnow).mpr hunused)

end Gate

/-- A kind that passes the check is the one the caller named. -/
theorem checkUploadRequest_kind {settings : Settings} {kind : String} {size : ℤ}
    {mime tid : Option String} {uploadKind : UploadKind}
    (h : checkUploadRequest settings kind size mime tid = .ok uploadKind) :
    uploadKind.text = kind := by
  simp only [checkUploadRequest] at h
  split at h
  · cases h
  · rename_i hkind
    split at h
    · cases h
    · split at h
      · rename_i haudio
        split at h
        · cases h
        · cases h
          exact haudio.symm
      · rename_i haudio
        have himage : kind = "image" := by
          by_contra hne
          exact hkind ⟨haudio, hne⟩
        split at h
        · cases h
        · split at h
          · cases h
          · split at h
            · cases h
            · split at h
              · cases h
              · cases h
                exact himage.symm

section Grant

variable {settings : Settings} {sha256Hex : Bytes → String} {now : ℤ} {secrets : UploadSecrets}
  {userId bearerId : Uuid} {kind : String} {size : ℤ} {mime tid : Option String} {db : Database}

/-- A call that is answered has inserted its row. -/
theorem requestUploadUrl_ok {grant : UploadUrl}
    (h : (requestUploadUrl settings sha256Hex now secrets userId bearerId kind size mime tid
      db).1 = .ok grant) :
    ∃ uploadKind hash bound t, uploadKind.text = kind ∧
      hashBearer sha256Hex grant.bearer = some hash ∧
      grant = uploadUrlAnswer settings kind secrets (uploadSessionRow settings now userId bearerId
        secrets hash uploadKind bound size mime) ∧
      insertUploadSession db.uploadSessions (uploadSessionRow settings now userId bearerId
        secrets hash uploadKind bound size mime) = some t ∧
      (requestUploadUrl settings sha256Hex now secrets userId bearerId kind size mime tid
        db).2 = { db with uploadSessions := t } := by
  unfold requestUploadUrl at h ⊢
  cases hkind : checkUploadRequest settings kind size mime tid with
  | error e => simp [hkind] at h
  | ok uploadKind =>
      simp only [hkind, mcpRequestSession] at h ⊢
      cases hbind : bindTranscription db userId uploadKind tid with
      | error e => simp [hbind] at h
      | ok bound =>
          simp only [hbind] at h ⊢
          cases hhash : hashBearer sha256Hex secrets.bearerForUpload with
          | none => simp [hhash] at h
          | some hash =>
              simp only [hhash] at h ⊢
              cases hinsert : insertUploadSession db.uploadSessions (uploadSessionRow settings now
                  userId bearerId secrets hash uploadKind bound size mime) with
              | none => simp [hinsert] at h
              | some t =>
                  simp only [hinsert, Except.ok.injEq] at h ⊢
                  subst h
                  exact ⟨uploadKind, hash, bound, t, checkUploadRequest_kind hkind, hhash, rfl,
                    hinsert, rfl⟩

end Grant

/-- The request has the bearer and the kind that the call at `grantedAt` handed
out; the grace period is not over, and `uploaded_at` of the session is NULL. -/
structure Honoured (sv : Service) (grantedAt : ℤ) (secrets : UploadSecrets) (grant : UploadUrl)
    (kind : String) (w : World) (endpoint : UploadKind) (req : UploadRequest) : Prop where
  bearer : ∃ token, parseBearer req.authorization = some token ∧
    hashBearer sv.sha256Hex token = hashBearer sv.sha256Hex grant.bearer
  kind : endpoint.text = kind
  inTime : w.now ≤ grantedAt + seconds sv.settings.uploadSessionTtlSeconds + sv.settings.grace
  unused : (w.session? secrets.uploadId).bind UploadSession.uploadedAt = none

/-- Whatever the service does after it has answered `request_upload_url`, restarts
included: a request with the nonce it gave out is let through exactly as long as it
is honoured, and then on the caller's session. -/
theorem capability_of_lives (sv : Service) {w s t : World} {ks ls : List Life} (hw : Initial w)
    (hks : (lives sv).run w ks = some s) {secrets : UploadSecrets} {userId bearerId : Uuid}
    {kind : String} {size : ℤ} {mime tid : Option String} {grant : UploadUrl}
    (hgrant : (requestUploadUrl sv.settings sv.sha256Hex s.now secrets userId bearerId kind size
      mime tid s.db).1 = .ok grant)
    (hls : (lives sv).run s
      (.turn (.requestUploadUrl secrets userId bearerId kind size mime tid) :: ls) = some t)
    (endpoint : UploadKind) {req : UploadRequest} (hnonce : req.sessionNonce = secrets.nonce) :
    ((∃ row, uploadGate sv.settings sv.sha256Hex endpoint t.now t.db req = .ok row) ↔
        Honoured sv s.now secrets grant kind t endpoint req) ∧
      ∀ row, uploadGate sv.settings sv.sha256Hex endpoint t.now t.db req = .ok row →
        row.id = secrets.uploadId ∧ row.userId = userId := by
  obtain ⟨s', hstep, hrest⟩ := ((lives sv).run_cons_eq_some).mp hls
  have hgranting : Granting sv s' := granting_life
    ((lives sv).invariant_run (fun _ _ _ => granting_life) (granting_initial hw) hks) hstep
  obtain ⟨uploadKind, hash, bound, table, hkind, hhash, -, hinsert, heffect⟩ :=
    requestUploadUrl_ok hgrant
  have hrow : s'.session? secrets.uploadId = some (uploadSessionRow sv.settings s.now userId
      bearerId secrets hash uploadKind bound size mime) := by
    obtain ⟨hrows, hfree⟩ := insertUploadSession_eq_some hinsert
    obtain rfl := Option.some.inj hstep
    rw [World.session?, heffect]
    exact (find?_append hfree hrows _).trans (if_pos rfl)
  -- later versions of the row are the same grant
  obtain ⟨hfinal, r, hr, hsame⟩ := (lives sv).invariant_run
    (I := fun w => Granting sv w ∧ ∃ r, w.session? secrets.uploadId = some r ∧
      SameGrant (uploadSessionRow sv.settings s.now userId bearerId secrets hash uploadKind bound
        size mime) r)
    (fun w l w' hI hstep => by
      obtain ⟨hw, r, hr, hsame⟩ := hI
      obtain ⟨r', hr', hsame'⟩ := sameGrant_life hstep hr
      exact ⟨granting_life hw hstep, r', hr', hsame.trans hsame'⟩)
    ⟨hgranting, _, hrow, ⟨rfl, rfl, rfl, rfl, rfl⟩⟩ hrest
  have hgate {row : UploadSession} :
      uploadGate sv.settings sv.sha256Hex endpoint t.now t.db req = .ok row ↔
        row = r ∧ (∃ token, parseBearer req.authorization = some token ∧
            hashBearer sv.sha256Hex token = some r.uploadBearerHash) ∧
          r.kind = endpoint ∧ t.now ≤ r.expiresAt + sv.settings.grace ∧ r.uploadedAt = none :=
    uploadGate_ok_iff hfinal hr (hnonce.trans hsame.nonce.symm)
  have hcolumn : (t.session? secrets.uploadId).bind UploadSession.uploadedAt = r.uploadedAt := by
    rw [hr, Option.bind_some]
  have hexpires : r.expiresAt = s.now + seconds sv.settings.uploadSessionTtlSeconds :=
    hsame.expiresAt
  have hrkind : r.kind = uploadKind := hsame.kind
  have hrhash : r.uploadBearerHash = hash := hsame.uploadBearerHash
  have htext : uploadKind = endpoint ↔ endpoint.text = kind := by
    rw [← hkind]
    cases uploadKind <;> cases endpoint <;> decide
  rw [hexpires, hrkind, hrhash] at hgate
  refine ⟨⟨?_, fun hon => ?_⟩, fun row hok => ?_⟩
  · rintro ⟨row, hok⟩
    obtain ⟨-, ⟨token, htoken, hmatch⟩, hsamekind, hnow, hunused⟩ := hgate.mp hok
    exact ⟨⟨token, htoken, hmatch.trans hhash.symm⟩, htext.mp hsamekind, hnow,
      hcolumn.trans hunused⟩
  · obtain ⟨token, htoken, hmatch⟩ := hon.bearer
    exact ⟨r, hgate.mpr ⟨rfl, ⟨token, htoken, hmatch.trans hhash⟩, htext.mpr hon.kind,
      hon.inTime, hcolumn.symm.trans hon.unused⟩⟩
  · obtain ⟨rfl, -⟩ := hgate.mp hok
    exact ⟨session?_id hr, hsame.userId⟩

/-- A session is requested and uploaded to; the client loses the answer, and the
process ends. -/
def usedGrant : List Life :=
  [requestAudio, .uploadAudio 0 uploadRequest, go 0 .ok, go 0 (.chunk [1, 2, 3, 4]),
    go 0 (.chunk []), go 0 .ok, go 0 .lost].map .turn ++ [.restart bootAfterUpload]

/-- A second request on it is turned away. -/
theorem capability_of_lives_usedGrant : ∃ t : World,
    (lives plainService).run emptyWorld usedGrant = some t ∧
      ¬ ∃ row, uploadGate default plainService.sha256Hex .audio t.now t.db uploadRequest =
        .ok row := by
  have hused : ((lives plainService).run emptyWorld usedGrant).map (fun w =>
      (w.session? 7).bind UploadSession.uploadedAt) = some (some 0) := by decide +kernel
  obtain ⟨t, ht, hcolumn⟩ := Option.map_eq_some_iff.mp hused
  refine ⟨t, ht, fun hopen => ?_⟩
  have hks : (lives plainService).run emptyWorld [] = some emptyWorld := rfl
  have hon := (capability_of_lives plainService initial_emptyWorld hks
    (rfl : (requestUploadUrl default plainService.sha256Hex 0 ⟨7, "nonce", "token"⟩ 1 3 "audio" 4
      none none emptyWorld.db).1 = .ok _) ht .audio rfl).1.mp hopen
  exact absurd (hcolumn.symm.trans hon.unused) (by decide)

end TranscriptionApi.Uploads
