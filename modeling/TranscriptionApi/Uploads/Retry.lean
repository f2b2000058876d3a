import TranscriptionApi.Uploads.Window

/-!
Whether an uploaded session can still be transcribed.

An audio session that is `uploaded` and within its grace period, with no handler
in flight on it, ought to have its bytes on disk: that is what a failed start is
retried on. Two things take them away. A start that leaves its `try` block
without having committed has removed the directory, and the row still says
`uploaded`; and an upload that opens the file over another upload truncates it.
Away from these two the bytes are there. The invariant behind this follows the
file from the `open` of its upload to the clean-up of the start that consumes it.
-/

namespace TranscriptionApi.Uploads

open Api Auth Db Lib Mcp Pipeline Python

/-- The session of an upload that has opened its file. -/
def Handler.uploadOf : Handler → Option Uuid
  | .streaming row _ _ => some row.id
  | .writing (.uploaded row _ _) => some row.id
  | .committing (.uploaded row _ _) => some row.id
  | _ => none

/-- An audio session that a start can still be made on. -/
structure Retryable (sv : Service) (w : World) (i : Uuid) (r : UploadSession) : Prop where
  row : w.session? i = some r
  kind : r.kind = .audio
  status : r.status = .uploaded
  now : w.now ≤ r.expiresAt + sv.settings.grace

/-- `original.bin` is there. -/
def World.original? (w : World) (i : Uuid) : Option StoredFile :=
  (w.dirs i).bind UploadDir.original

/-- Every session that can be started on and has no handler in flight has the
bytes its upload accepted on disk, and a start on it passes its check. -/
def RetryReady (sv : Service) (w : World) : Prop :=
  ∀ i r, Retryable sv w i r →
    (∀ p h, w.handlers p = some h → ∀ row ∈ h.rows, row.id ≠ i) →
      (∃ f, w.original? i = some f ∧ w.accepted i = some f.bytes) ∧
        checkUploadRow sv.settings w.now r = .ok ()

/-! ### The condition -/

/-- A start leaves its `try` block by an exception only if its session can no
longer be started on, or the removal leaves the directory as it was. -/
def LeavesFile (sv : Service) (w : World) (e : Event) : Prop :=
  ∀ p a rm h row, e = .resume p a rm → a.raises = true → w.handlers p = some h →
    ((∃ since, h = .orchestrating row since) ∨
      ∃ at_ tx r, h = .writing (.consumed row at_ tx r)) →
    (∃ r, Retryable sv w row.id r) → rmtree (w.dirs row.id) (rm row.id) = w.dirs row.id

/-- The COMMIT of a start fails only if its session can no longer be started
on, or the file is still there. -/
def CommitsConsumed (sv : Service) (w : World) (e : Event) : Prop :=
  ∀ p a rm row at_ tx r, e = .resume p a rm → a.raises = true →
    w.handlers p = some (.committing (.consumed row at_ tx r)) →
    (∃ r, Retryable sv w row.id r) → (w.original? row.id).isSome

/-- An upload opens its file only on a session that is still `requested` and
that no other upload has opened its file for. -/
def OpensAlone (sv : Service) (w : World) (e : Event) : Prop :=
  ∀ p a rm plaintext filename row since, e = .resume p a rm → a = .ok ∨ a = .openFailed →
    w.handlers p = some (.selected .audio plaintext filename row since) →
    checkSession sv.settings sv.sha256Hex .audio w.now plaintext row = .ok () →
    w.db.status? row.id = some .requested ∧
      ∀ q h, w.handlers q = some h → h.uploadOf ≠ some row.id

structure FilesRespected (sv : Service) (w : World) (e : Event) : Prop where
  leaves : LeavesFile sv w e
  commits : CommitsConsumed sv w e
  opens : OpensAlone sv w e

/-! ### The invariant -/

/-- What an upload has written so far is what it received. -/
def Handler.HoldsFile (w : World) : Handler → Prop
  | .streaming row fh received =>
      ∃ f, w.original? row.id = some f ∧ f.inode = fh.inode ∧ f.bytes = received ∧
        fh.pos = received.length
  | .writing (.uploaded row _ bytes) => ∃ f, w.original? row.id = some f ∧ f.bytes = bytes
  | .committing (.uploaded row _ bytes) => ∃ f, w.original? row.id = some f ∧ f.bytes = bytes
  | _ => True

/-- A start that has removed the file is about to commit. -/
def Consuming (w : World) (i : Uuid) : Prop :=
  ∃ p row at_ tx r, w.handlers p = some (.committing (.consumed row at_ tx r)) ∧ row.id = i

structure FilesKept (sv : Service) (w : World) : Prop where
  /-- uploads that have opened a file are alone on their session -/
  alone : ∀ p q h h' i, w.handlers p = some h → w.handlers q = some h' →
    h.uploadOf = some i → h'.uploadOf = some i → p = q
  /-- no upload of such a session has committed -/
  pending : ∀ p h i r, w.handlers p = some h → h.uploadOf = some i → w.session? i = some r →
    r.uploadedAt = none
  /-- they hold what they received, unless a purge may have come -/
  holds : ∀ p h i r, w.handlers p = some h → h.uploadOf = some i → w.session? i = some r →
    w.now ≤ r.expiresAt + sv.settings.grace → h.HoldsFile w
  /-- what was accepted stays until a start consumes it -/
  kept : ∀ i r, Retryable sv w i r →
    (∃ f, w.original? i = some f ∧ w.accepted i = some f.bytes) ∨
      w.original? i = none ∧ Consuming w i

/-- How a step reaches the directory of session `i`. -/
inductive TouchesDir (sv : Service) (w : World) (e : Event) (i : Uuid) : Option UploadDir → Prop
  | opens (p : ℕ) (rm : Uuid → RmOutcome) (plaintext : String) (filename : Option String)
      (row : UploadSession) (since : ℤ) (he : e = .resume p .ok rm)
      (hp : w.handlers p = some (.selected .audio plaintext filename row since)) (hid : row.id = i)
      (hcheck : checkSession sv.settings sv.sha256Hex .audio w.now plaintext row = .ok ()) :
      TouchesDir sv w e i (some (openWb (w.dirs i) w.nextInode).1)
  | openFails (p : ℕ) (rm : Uuid → RmOutcome) (plaintext : String) (filename : Option String)
      (row : UploadSession) (since : ℤ) (he : e = .resume p .openFailed rm)
      (hp : w.handlers p = some (.selected .audio plaintext filename row since)) (hid : row.id = i)
      (hcheck : checkSession sv.settings sv.sha256Hex .audio w.now plaintext row = .ok ()) :
      TouchesDir sv w e i (some ⟨none⟩)
  | streams (p : ℕ) (a : Await) (rm : Uuid → RmOutcome) (row : UploadSession) (fh : Handle)
      (received : Bytes) (d : Option UploadDir) (he : e = .resume p a rm)
      (hp : w.handlers p = some (.streaming row fh received)) (hid : row.id = i) :
      TouchesDir sv w e i d
  | cleans (p : ℕ) (a : Await) (rm : Uuid → RmOutcome) (row : UploadSession) (h : Handler)
      (he : e = .resume p a rm) (hp : w.handlers p = some h)
      (hh : (∃ since, h = .orchestrating row since) ∨
        ∃ at_ tx r, h = .writing (.consumed row at_ tx r))
      (ha : a.raises = true) (hid : row.id = i) :
      TouchesDir sv w e i (rmtree (w.dirs i) (rm i))
  | consumes (p : ℕ) (rm : Uuid → RmOutcome) (row : UploadSession) (at_ : ℤ)
      (tx : Transcription) (r : TranscriptionResult) (he : e = .resume p .ok rm)
      (hp : w.handlers p = some (.writing (.consumed row at_ tx r))) (hid : row.id = i) :
      TouchesDir sv w e i (rmtree (w.dirs i) (rm i))
  | purges (p : ℕ) (rm : Uuid → RmOutcome) (rows : List UploadSession) (r : UploadSession)
      (d : Option UploadDir) (he : e = .resume p .ok rm)
      (hp : w.handlers p = some (.purgeSelected rows)) (hr : r ∈ rows) (hid : r.id = i) :
      TouchesDir sv w e i d

section

variable {sv : Service} {w w' : World} {e : Event} {p q : ℕ} {i : Uuid} {h h' : Handler}

theorem setDir_dirs (w : World) (i j : Uuid) (d : Option UploadDir) :
    (w.setDir i d).dirs j = if i = j then d else w.dirs j := by
  show Function.update w.dirs i d j = _
  by_cases hij : i = j
  · rw [if_pos hij, ← hij, Function.update_self]
  · rw [if_neg hij, Function.update_of_ne (Ne.symm hij)]

/-- Only uploads, starts and purges reach a directory, each at its own step. -/
theorem Moves.dirs (hm : Moves sv w e w') (i : Uuid) :
    w'.dirs i = w.dirs i ∨ TouchesDir sv w e i (w'.dirs i) := by
  have hset {j : Uuid} {d : Option UploadDir}
      (htouch : j = i → TouchesDir sv w e i d) :
      (w.setDir j d).dirs i = w.dirs i ∨ TouchesDir sv w e i ((w.setDir j d).dirs i) := by
    rw [setDir_dirs]
    split
    · exact .inr (htouch ‹_›)
    · exact .inl rfl
  have hpurge {p : ℕ} {rm : Uuid → RmOutcome} {rows : List UploadSession}
      (he : e = .resume p .ok rm) (hp : w.handlers p = some (.purgeSelected rows)) :
      (purgeDirs rm rows w.dirs).1 i = w.dirs i ∨
        TouchesDir sv w e i ((purgeDirs rm rows w.dirs).1 i) := by
    by_cases hrows : ∃ r ∈ rows, r.id = i
    · obtain ⟨r, hr, hid⟩ := hrows
      exact .inr (.purges p rm rows r _ he hp hr hid)
    · exact .inl (purgeDirs_of_notMem fun r hr hid => hrows ⟨r, hr, hid⟩)
  cases hm with
  | opened p rm plaintext filename row since hp hnow hkind hcheck =>
      refine hset fun hid => ?_
      rw [hid]
      exact .opens p rm plaintext filename row since rfl hp hid hcheck
  | openFailed p rm plaintext filename row since hp hcheck =>
      exact hset fun hid => .openFails p rm plaintext filename row since rfl hp hid hcheck
  | chunk p rm row fh received bytes hp =>
      exact hset fun hid => .streams p _ rm row fh received _ rfl hp hid
  | unlinked p a rm row fh received answer hp hanswer =>
      exact hset fun hid => .streams p a rm row fh received _ rfl hp hid
  | cleaned p a rm row h entry hp hh ha hentry =>
      refine hset fun hid => ?_
      rw [hid]
      exact .cleans p a rm row h rfl hp hh ha hid
  | purgeStopped p rm rows entry hp hentry => exact hpurge rfl hp
  | purged p rm rows hp => exact hpurge rfl hp
  | updated p rm wr locks hp =>
      cases wr with
      | consumed row at_ tx r =>
          refine hset fun hid => ?_
          rw [hid]
          exact .consumes p rm row at_ tx r rfl hp hid
      | _ => exact .inl rfl
  | committed p a rm wr db ha hp hdb =>
      left
      show (w.accept wr).dirs i = w.dirs i
      rw [accept_dirs]
  | _ => exact .inl rfl

/-- An upload that has its file open holds an audio row of that session. -/
theorem row_of_uploadOf (hw : Sound sv w) (hp : w.handlers p = some h)
    (hi : h.uploadOf = some i) : ∃ row ∈ h.rows, row.id = i ∧ row.kind = .audio := by
  have hfacts := hw.facts p h hp
  cases h with
  | streaming row fh received => exact ⟨row, List.mem_cons_self, Option.some.inj hi, hfacts⟩
  | writing wr =>
      cases wr with
      | uploaded row at_ bytes =>
          exact ⟨row, List.mem_cons_self, Option.some.inj hi, hfacts⟩
      | _ => cases hi
  | committing wr =>
      cases wr with
      | uploaded row at_ bytes =>
          exact ⟨row, List.mem_cons_self, Option.some.inj hi, hfacts⟩
      | _ => cases hi
  | _ => cases hi

/-- A start past its check is on a session that has been uploaded. -/
theorem uploadedAt_of_startOf (hw : Sound sv w) (hp : w.handlers p = some h)
    (hi : h.startOf = some i) : ∃ r, w.session? i = some r ∧ r.uploadedAt.isSome := by
  have hfacts := hw.facts p h hp
  have hstarted : ∃ row ∈ h.rows, row.id = i ∧ Started row := by
    cases h with
    | orchestrating row since => exact ⟨row, List.mem_cons_self, Option.some.inj hi, hfacts⟩
    | writing wr =>
        cases wr with
        | consumed row at_ tx r =>
            exact ⟨row, List.mem_cons_self, Option.some.inj hi, hfacts⟩
        | _ => cases hi
    | committing wr =>
        cases wr with
        | consumed row at_ tx r =>
            exact ⟨row, List.mem_cons_self, Option.some.inj hi, hfacts⟩
        | _ => cases hi
    | _ => cases hi
  obtain ⟨row, hrow, rfl, hstart⟩ := hstarted
  obtain ⟨r, hr, hlead⟩ := hw.known p h hp row hrow
  exact ⟨r, hr, hlead.uploadedAt hstart.uploadedAt⟩

/-- An upload comes to have its file open in one way only. -/
theorem uploadOf_of_turns (ht : Turns sv w e q h') (hi : h'.uploadOf = some i) :
    (∃ h, w.handlers q = some h ∧ h.uploadOf = some i) ∨
      ∃ rm plaintext filename row since, e = .resume q .ok rm ∧
        w.handlers q = some (.selected .audio plaintext filename row since) ∧ row.id = i ∧
        checkSession sv.settings sv.sha256Hex .audio w.now plaintext row = .ok () := by
  cases ht with
  | streaming rm plaintext filename row since he hold hkind hcheck =>
      exact .inr ⟨rm, plaintext, filename, row, since, he, hold, Option.some.inj hi, hcheck⟩
  | chunk rm row fh received bytes he hold => exact .inl ⟨_, hold, hi⟩
  | received rm row fh received he hold => exact .inl ⟨_, hold, hi⟩
  | updated rm wr he hold =>
      refine .inl ⟨_, hold, ?_⟩
      cases wr with
      | uploaded row at_ bytes => exact hi
      | _ => cases hi
  | _ => cases hi

/-- The step's uploads that have their file open: each had it open before, or
has just opened it, alone on a `requested` session. -/
theorem uploadOf_step (hm : Moves sv w e w') (hc : FilesRespected sv w e)
    (hq : w'.handlers q = some h') (hi : h'.uploadOf = some i) :
    (∃ h, w.handlers q = some h ∧ h.uploadOf = some i) ∨
      (∃ rm, e = .resume q .ok rm) ∧ (w.handlers q).bind Handler.uploadOf = none ∧
        w.db.status? i = some .requested ∧
        ∀ p h, w.handlers p = some h → h.uploadOf ≠ some i := by
  rcases hm.turns hq with hold | hturn
  · exact .inl ⟨h', hold, hi⟩
  · rcases uploadOf_of_turns hturn hi with
      hold | ⟨rm, plaintext, filename, row, since, he, hold, rfl, hcheck⟩
    · exact .inl hold
    · obtain ⟨hstatus, halone⟩ :=
        hc.opens q .ok rm plaintext filename row since he (.inl rfl) hold hcheck
      exact .inr ⟨⟨rm, he⟩, by rw [hold]; rfl, hstatus, halone⟩

theorem alone_step (hk : FilesKept sv w) (hc : FilesRespected sv w e) (hm : Moves sv w e w')
    {h₁ h₂ : Handler} (hp : w'.handlers p = some h₁) (hq : w'.handlers q = some h₂)
    (h₁i : h₁.uploadOf = some i) (h₂i : h₂.uploadOf = some i) : p = q := by
  rcases uploadOf_step hm hc hp h₁i with ⟨g₁, hg₁, hg₁i⟩ | ⟨⟨rm, he⟩, -, -, halone⟩
  · rcases uploadOf_step hm hc hq h₂i with ⟨g₂, hg₂, hg₂i⟩ | ⟨-, -, -, halone⟩
    · exact hk.alone p q g₁ g₂ i hg₁ hg₂ hg₁i hg₂i
    · exact absurd hg₁i (halone p g₁ hg₁)
  · rcases uploadOf_step hm hc hq h₂i with ⟨g₂, hg₂, hg₂i⟩ | ⟨⟨rm', he'⟩, -⟩
    · exact absurd hg₂i (halone q g₂ hg₂)
    · rw [he] at he'
      injection he'

/-- A committed handler is gone. -/
theorem handlers_committed {wr : Write} (hc : Commits w e p wr)
    (hstep : (service sv).step w e = some w') : w'.handlers p = none := by
  obtain ⟨⟨a, rm, rfl, ha⟩, hp⟩ := hc
  obtain ⟨db, -, rfl⟩ := step_committing hp ha hstep
  show Function.update (w.accept wr).handlers p none p = none
  rw [Function.update_self]

/-- An UPDATE that was executed is about to be committed. -/
theorem handlers_updated {rm : Uuid → RmOutcome} {wr : Write}
    (hp : w.handlers p = some (.writing wr))
    (hstep : (service sv).step w (.resume p .ok rm) = some w') :
    w'.handlers p = some (.committing wr) := by
  change ((w.handlers p).bind fun h => resume sv w p rm h .ok) = some w' at hstep
  rw [hp, Option.bind_some] at hstep
  simp only [resume, resumeWriting] at hstep
  split at hstep
  · obtain rfl := Option.some.inj hstep
    show Function.update (w.leaveTry rm wr).handlers p _ p = _
    rw [Function.update_self]
  · cases hstep

theorem pending_step (hw : Sound sv w) (hk : FilesKept sv w) (hc : FilesRespected sv w e)
    (hstep : (service sv).step w e = some w') (hq : w'.handlers q = some h')
    (hi : h'.uploadOf = some i) {r' : UploadSession} (hr' : w'.session? i = some r') :
    r'.uploadedAt = none := by
  have hm := step_moves hstep
  -- before the step the row has no upload either
  have hbefore : ∀ r, w.session? i = some r → r.uploadedAt = none := by
    intro r hr
    rcases uploadOf_step hm hc hq hi with ⟨h, hold, hold_i⟩ | ⟨-, -, hstatus, -⟩
    · exact hk.pending q h i r hold hold_i hr
    · obtain ⟨r₀, hr₀, hrequested⟩ := Database.status?_eq_some_iff.mp hstatus
      obtain rfl := Option.some.inj (hr.symm.trans hr₀)
      exact (hw.rows i r hr).requested hrequested
  have hknown : ∃ row, row.kind = .audio ∧ row.id = i ∧ Known w' row := by
    obtain ⟨row, hrow, hid, hkind⟩ := row_of_uploadOf (sound_step hw hstep) hq hi
    exact ⟨row, hkind, hid, (sound_step hw hstep).known q h' hq row hrow⟩
  cases hm.sessions with
  | same h =>
      rw [World.session?, h] at hr'
      exact hbefore r' hr'
  | requested new hfree hnonce hstatus huploaded hconsumed hbound h =>
      rw [h] at hr'
      split at hr'
      · cases hr'
        exact huploaded
      · exact hbefore r' hr'
  | committed p wr hcommit h =>
      have hgone := handlers_committed hcommit hstep
      have hp := hcommit.handler
      rw [h] at hr'
      obtain ⟨r, hr, rfl⟩ := Option.map_eq_some_iff.mp hr'
      split
      · rename_i hmem
        cases wr with
        | uploaded row at_ bytes =>
            -- the upload that commits is the one that has the file open
            obtain rfl := List.mem_singleton.mp hmem
            rcases uploadOf_step hm hc hq hi with ⟨g, hg, hgi⟩ | ⟨-, -, -, halone⟩
            · obtain rfl := hk.alone p q _ g row.id hp hg rfl hgi
              rw [hgone] at hq
              cases hq
            · exact absurd rfl (halone p _ hp)
        | imageUploaded row at_ img =>
            -- an image session has no upload with a file open
            obtain rfl := List.mem_singleton.mp hmem
            obtain ⟨r₁, hr₁, hlead₁⟩ := hw.known p _ hp row List.mem_cons_self
            obtain rfl := Option.some.inj (hr.symm.trans hr₁)
            obtain ⟨row₂, hkind₂, hid₂, r₂, hr₂, hlead₂⟩ := hknown
            rw [hid₂, h, hr, Option.map_some, if_pos hmem, Option.some.injEq] at hr₂
            have himage : row.kind = .image := (hw.facts p _ hp).1
            have hkind := hlead₂.kind
            rw [← hr₂, hkind₂] at hkind
            have hkind' := hlead₁.kind
            rw [himage] at hkind'
            cases hkind'.symm.trans hkind
        | consumed row at_ tx result => exact hbefore r hr
        | expired rows => exact hbefore r hr
      · exact hbefore r hr

/-! ### The file while it is written -/

theorem HoldsFile.congr (hw : ∀ i, h.uploadOf = some i → w'.original? i = w.original? i)
    (hold : h.HoldsFile w) : h.HoldsFile w' := by
  cases h with
  | streaming row fh received =>
      rw [Handler.HoldsFile, hw row.id rfl]
      exact hold
  | writing wr =>
      cases wr with
      | uploaded row at_ bytes =>
          rw [Handler.HoldsFile, hw row.id rfl]
          exact hold
      | _ => trivial
  | committing wr =>
      cases wr with
      | uploaded row at_ bytes =>
          rw [Handler.HoldsFile, hw row.id rfl]
          exact hold
      | _ => trivial
  | _ => trivial

/-- A purge pass does not hold a session within its grace period. -/
theorem not_purged (hw : Sound sv w) {r : UploadSession} (hr : w.session? i = some r)
    (hnow : w.now ≤ r.expiresAt + sv.settings.grace) (hp : w.handlers p = some h) :
    ∀ c ∈ h.purges, c.id ≠ i := by
  intro c hmem hid
  obtain ⟨hknown, hpast⟩ := pastGrace_of_purges hw hp hmem
  have hself : Known w r := ⟨r, by rw [session?_id hr]; exact hr, .refl r⟩
  have hexp := expiresAt_eq hknown hself (hid.trans (session?_id hr).symm)
  have hlate : c.expiresAt + sv.settings.grace < w.now := hpast
  omega

/-- Within the grace period, another handler's step leaves the file of an open
upload alone. -/
theorem dirs_of_uploadOf (hw : Sound sv w) (hk : FilesKept sv w) (hc : FilesRespected sv w e)
    (hm : Moves sv w e w') (hq : w.handlers q = some h) (hi : h.uploadOf = some i)
    (hactor : e.actor ≠ some q) {r : UploadSession} (hr : w.session? i = some r)
    (hnow : w.now ≤ r.expiresAt + sv.settings.grace) : w'.dirs i = w.dirs i := by
  have hpending := hk.pending q h i r hq hi hr
  have hstart {p : ℕ} {g : Handler} (hp : w.handlers p = some g) : g.startOf ≠ some i := by
    intro hgi
    obtain ⟨r', hr', hsome⟩ := uploadedAt_of_startOf hw hp hgi
    obtain rfl := Option.some.inj (hr.symm.trans hr')
    rw [hpending] at hsome
    cases hsome
  rcases hm.dirs i with hsame | htouch
  · exact hsame
  · generalize w'.dirs i = d at htouch ⊢
    cases htouch with
    | opens p rm plaintext filename row since he hp hid hcheck =>
        exact absurd (hi.trans (congrArg some hid.symm))
          ((hc.opens p _ rm plaintext filename row since he (.inl rfl) hp hcheck).2 q h hq)
    | openFails p rm plaintext filename row since he hp hid hcheck =>
        exact absurd (hi.trans (congrArg some hid.symm))
          ((hc.opens p _ rm plaintext filename row since he (.inr rfl) hp hcheck).2 q h hq)
    | streams p a rm row fh received d he hp hid =>
        have hpq := hk.alone p q _ h i hp hq (congrArg some hid) hi
        exact absurd (he ▸ congrArg some hpq) hactor
    | cleans p a rm row g he hp hh ha hid =>
        refine absurd ?_ (hstart hp)
        rcases hh with ⟨since, rfl⟩ | ⟨at_, tx, result, rfl⟩
        · exact congrArg some hid
        · exact congrArg some hid
    | consumes p rm row at_ tx result he hp hid =>
        exact absurd (congrArg some hid) (hstart hp)
    | purges p rm rows c d he hp hmem hid =>
        exact absurd hid (not_purged hw hr hnow hp c hmem)

theorem original?_setDir (w : World) (i : Uuid) (d : Option UploadDir) :
    (w.setDir i d).original? i = d.bind UploadDir.original := by
  rw [World.original?, setDir_dirs, if_pos rfl]

/-- The file grows by the chunk. -/
theorem HoldsFile.chunk {row : UploadSession} {fh : Handle} {received : Bytes} (bytes : Bytes)
    (h : (Handler.streaming row fh received).HoldsFile w) :
    (Handler.streaming row { fh with pos := fh.pos + bytes.length }
      (received ++ bytes)).HoldsFile (w.setDir row.id (writeTo (w.dirs row.id) fh bytes)) := by
  obtain ⟨f, hf, hinode, hbytes, hpos⟩ := h
  have hdir : w.dirs row.id = some ⟨some f⟩ := by
    obtain ⟨d, hd, hfd⟩ := Option.bind_eq_some_iff.mp hf
    rw [hd]
    exact congrArg some (congrArg UploadDir.mk hfd)
  refine ⟨{ f with bytes := received ++ bytes }, ?_, hinode, rfl, ?_⟩
  · refine (original?_setDir w row.id _).trans ?_
    rw [hdir]
    simp [writeTo, hinode, hbytes, hpos]
  · simp [hpos]

/-- What an open upload does to its own file. -/
theorem holdsFile_own (hm : Moves sv w e w') (hactor : e.actor = some q)
    (hq : w'.handlers q = some h') (hi : h'.uploadOf = some i)
    (hbefore : ∀ h, w.handlers q = some h → h.uploadOf = some i → h.HoldsFile w) :
    h'.HoldsFile w' := by
  have hgone {w₀ : World} {p : ℕ} {es : List Entry} (hpq : some p = some q)
      (hq : (w₀.finish p es).handlers q = some h') : h'.HoldsFile w' :=
    absurd (Option.some.inj hpq).symm (handlers_finish hq).1
  have hnone {w₀ : World} {p : ℕ} {h₁ : Handler} (hpq : some p = some q)
      (hq : (w₀.goto p h₁).handlers q = some h') (h₁i : h₁.uploadOf = none) :
      h'.HoldsFile w' := by
    rcases handlers_goto hq with ⟨-, rfl⟩ | ⟨hne, -⟩
    · rw [h₁i] at hi
      cases hi
    · exact absurd (Option.some.inj hpq).symm hne
  cases hm with
  | tick d => cases hactor
  | idle => exact hbefore h' hq hi
  | requested e row t => exact HoldsFile.congr (fun _ _ => rfl) (hbefore h' hq hi)
  | posted e tx t => exact HoldsFile.congr (fun _ _ => rfl) (hbefore h' hq hi)
  | refused e p entry he hp hentry => exact hgone (he.symm.trans hactor) hq
  | selected e p kind plaintext filename row he hp hrow hstatus =>
      exact hnone (he.symm.trans hactor) hq rfl
  | loading e p row he hp hrow hkind => exact hnone (he.symm.trans hactor) hq rfl
  | purging e p he hp => exact hnone (he.symm.trans hactor) hq rfl
  | deleting e p u tid he hp => exact hnone (he.symm.trans hactor) hq rfl
  | opened p rm plaintext filename row since hp hnow hkind hcheck =>
      have hopen : ((w.setDir row.id (some (openWb (w.dirs row.id) w.nextInode).1)).goto p
          (.streaming row (openWb (w.dirs row.id) w.nextInode).2 [])).handlers q = some h' := hq
      rcases handlers_goto hopen with ⟨-, rfl⟩ | ⟨hne, -⟩
      · refine ⟨_, (original?_setDir w row.id _).trans rfl, rfl, rfl, rfl⟩
      · exact absurd (Option.some.inj hactor).symm hne
  | openFailed p rm plaintext filename row since hp hcheck => exact hgone hactor hq
  | reading p rm plaintext filename row since hp hkind => exact hnone hactor hq rfl
  | chunk p rm row fh received bytes hp =>
      rcases handlers_goto hq with ⟨rfl, rfl⟩ | ⟨hne, -⟩
      · exact HoldsFile.chunk bytes (hbefore _ hp hi)
      · exact absurd (Option.some.inj hactor).symm hne
  | received p rm row fh received hp =>
      rcases handlers_goto hq with ⟨rfl, rfl⟩ | ⟨hne, -⟩
      · obtain ⟨f, hf, -, hbytes, -⟩ := hbefore _ hp hi
        exact ⟨f, hf, hbytes⟩
      · exact absurd (Option.some.inj hactor).symm hne
  | unlinked p a rm row fh received answer hp hanswer => exact hgone hactor hq
  | image p a rm filename row since img blobs hp hdeleted hbound huser =>
      have himage : (w.goto p (.writing (.imageUploaded row w.now img))).handlers q = some h' :=
        hq
      exact hnone hactor himage rfl
  | passed p rm row since hp hstatus hnow => exact hnone hactor hq rfl
  | orchestrated p rm row since r txId hp => exact hnone hactor hq rfl
  | cleaned p a rm row h entry hp hh ha hentry => exact hgone hactor hq
  | candidates p rm cutoff hp => exact hnone hactor hq rfl
  | purgeStopped p rm rows entry hp hentry => exact hgone hactor hq
  | purged p rm rows hp => exact hnone hactor hq rfl
  | updated p rm wr locks hp =>
      have hupdate : ((w.leaveTry rm wr).goto p (.committing wr)).handlers q = some h' := hq
      cases wr with
      | uploaded row at_ bytes =>
          rcases handlers_goto hupdate with ⟨rfl, rfl⟩ | ⟨hne, -⟩
          · exact hbefore _ hp hi
          · exact absurd (Option.some.inj hactor).symm hne
      | _ => exact hnone hactor hupdate rfl
  | committed p a rm wr db ha hp hdb =>
      have hcommit : ((w.accept wr).finish p (wr.entries a)).handlers q = some h' := hq
      exact hgone hactor hcommit
  | cascading p rm del deleteLocks hp hhits =>
      have hcascade : (w.goto p (.cascading del)).handlers q = some h' := hq
      exact hnone hactor hcascade rfl
  | cascaded p rm del hp => exact hnone hactor hq rfl
  | deleted p a rm del found ha hp =>
      have hcommit : (w.finish p (del.entries a)).handlers q = some h' := hq
      exact hgone hactor hcommit
  | ended p a rm h entry hp hentry => exact hgone hactor hq

/-- The session of an open upload was there before the step, within its grace
period if it is so now. -/
theorem session?_before (hw : Sound sv w) (hm : Moves sv w e w') (hw' : Sound sv w')
    (hq : w'.handlers q = some h') (hi : h'.uploadOf = some i) {r' : UploadSession}
    (hr' : w'.session? i = some r') (hnow : w'.now ≤ r'.expiresAt + sv.settings.grace) :
    ∃ r, w.session? i = some r ∧ w.now ≤ r.expiresAt + sv.settings.grace := by
  obtain ⟨row, hrow, rfl, -⟩ := row_of_uploadOf hw' hq hi
  have hknown : Known w row := by
    rcases hm.turns hq with hold | hturn
    · exact hw.known q h' hold row hrow
    · exact (hturn.sound hw).1 row hrow
  obtain ⟨r, hr, -⟩ := hknown
  obtain ⟨r'', hr'', hlead⟩ := hm.sessions.leadsTo hr
  obtain rfl := Option.some.inj (hr'.symm.trans hr'')
  have hle := hm.now_le
  rw [hlead.expiresAt] at hnow
  exact ⟨r, hr, by omega⟩

theorem holds_step (hw : Sound sv w) (hk : FilesKept sv w) (hc : FilesRespected sv w e)
    (hstep : (service sv).step w e = some w') (hq : w'.handlers q = some h')
    (hi : h'.uploadOf = some i) {r' : UploadSession} (hr' : w'.session? i = some r')
    (hnow : w'.now ≤ r'.expiresAt + sv.settings.grace) : h'.HoldsFile w' := by
  have hm := step_moves hstep
  obtain ⟨r, hr, hnow₀⟩ := session?_before hw hm (sound_step hw hstep) hq hi hr' hnow
  by_cases hactor : e.actor = some q
  · exact holdsFile_own hm hactor hq hi fun h hold hold_i => hk.holds q h i r hold hold_i hr hnow₀
  · have hold : w.handlers q = some h' := hm.handlers_of_ne hactor ▸ hq
    refine HoldsFile.congr (fun j hj => ?_) (hk.holds q h' i r hold hi hr hnow₀)
    obtain rfl := Option.some.inj (hi.symm.trans hj)
    rw [World.original?, World.original?, dirs_of_uploadOf hw hk hc hm hold hi hactor hr hnow₀]

/-! ### The file after it was accepted -/

theorem rmtree_original (d : Option UploadDir) (o : RmOutcome) :
    (rmtree d o).bind UploadDir.original = none ∨ rmtree d o = d := by
  cases d with
  | none => exact .inl (by rw [rmtree_none]; rfl)
  | some d =>
      rcases o with _ | ⟨err, _ | keepOriginal⟩
      · exact .inl rfl
      · exact .inl rfl
      · cases keepOriginal with
        | false => exact .inl rfl
        | true => exact .inr rfl

/-- A session that can be started on after the step could be started on before
it, unless its upload has just committed. -/
theorem retryable_before (hw : Sound sv w) (hm : Moves sv w e w') {r' : UploadSession}
    (hr' : Retryable sv w' i r') :
    Retryable sv w i r' ∨
      ∃ p row at_ bytes, Commits w e p (.uploaded row at_ bytes) ∧ row.id = i := by
  have hle := hm.now_le
  have hnow : w.now ≤ r'.expiresAt + sv.settings.grace := by
    have := hr'.now
    omega
  have hsame (h : w.session? i = some r') : Retryable sv w i r' := ⟨h, hr'.kind, hr'.status, hnow⟩
  have hrow := hr'.row
  cases hm.sessions with
  | same h =>
      rw [World.session?, h] at hrow
      exact .inl (hsame hrow)
  | requested new hfree hnonce hstatus huploaded hconsumed hbound h =>
      rw [h] at hrow
      split at hrow
      · cases hrow
        cases hr'.status.symm.trans hstatus
      · exact .inl (hsame hrow)
  | committed p wr hcommit h =>
      have hp := hcommit.handler
      rw [h] at hrow
      obtain ⟨r, hr, hset⟩ := Option.map_eq_some_iff.mp hrow
      split at hset
      · rename_i hmem
        have hstatus := hr'.status
        rw [← hset, wr.set_status] at hstatus
        cases wr with
        | uploaded row at_ bytes =>
            exact .inr ⟨p, row, at_, bytes, hcommit, (List.mem_singleton.mp hmem).symm⟩
        | imageUploaded row at_ img =>
            obtain ⟨r₁, hr₁, hlead⟩ := hw.known p _ hp row List.mem_cons_self
            rw [← List.mem_singleton.mp hmem, hr] at hr₁
            obtain rfl := Option.some.inj hr₁
            have himage : row.kind = .image := (hw.facts p _ hp).1
            have hkind := hr'.kind
            rw [← hset, ((Write.imageUploaded row at_ img).leadsTo_set r).kind, hlead.kind,
              himage] at hkind
            cases hkind
        | consumed row at_ tx result => cases hstatus
        | expired rows => cases hstatus
      · rw [← hset] at hr' hsame
        exact .inl (hset ▸ hsame hr)

theorem not_requested_of_retryable {r : UploadSession} (hr : Retryable sv w i r) :
    w.db.status? i ≠ some .requested := by
  intro hrequested
  obtain ⟨r', hr', hstatus⟩ := Database.status?_eq_some_iff.mp hrequested
  obtain rfl := Option.some.inj (hr.row.symm.trans hr')
  cases hr.status.symm.trans hstatus

theorem commits_or_raises {wr : Write} {a : Await} {rm : Uuid → RmOutcome}
    (hp : w.handlers p = some (.committing wr))
    (h : (service sv).step w (.resume p a rm) = some w') :
    a.commits = true ∨ a.raises = true := by
  change ((w.handlers p).bind fun h => resume sv w p rm h a) = some w' at h
  rw [hp, Option.bind_some] at h
  cases a with
  | ok => exact .inl rfl
  | lost => exact .inl rfl
  | openFailed => exact .inr rfl
  | failed e => exact .inr rfl
  | raised => exact .inr rfl
  | cancelled => exact .inr rfl
  | _ => cases h

/-- A start about to commit stays so, as long as its session can be started on
and its file is gone. -/
theorem consuming_step (hc : FilesRespected sv w e) (hstep : (service sv).step w e = some w')
    {r r' : UploadSession} (hr : Retryable sv w i r) (hr' : Retryable sv w' i r')
    (hnone : w.original? i = none) (h : Consuming w i) : Consuming w' i := by
  obtain ⟨p, row, at_, tx, result, hp, rfl⟩ := h
  by_cases hactor : e.actor = some p
  · obtain ⟨a, rm, rfl⟩ := resume_of_actor hstep hp hactor
    rcases commits_or_raises hp hstep with ha | ha
    · -- it commits, and the session is consumed
      obtain ⟨db, hdb, rfl⟩ := step_committing hp ha hstep
      have hrow : db.uploadSessions.find? row.id = some r' := hr'.row
      have hold : w.db.uploadSessions.find? row.id = some r := hr.row
      have hmem : row.id ∈ (Write.consumed row at_ tx result).ids := List.mem_singleton_self _
      rw [Write.find?_apply hdb, hold, Option.map_some, if_pos hmem, Option.some.injEq] at hrow
      have hstatus := hr'.status
      rw [← hrow, Write.set_status] at hstatus
      cases hstatus
    · have hfile := hc.commits p a rm row at_ tx result rfl ha hp ⟨r, hr⟩
      rw [hnone] at hfile
      cases hfile
  · exact ⟨p, row, at_, tx, result, (step_moves hstep).handlers_of_ne hactor ▸ hp, rfl⟩

theorem accepted_step (hstep : (service sv).step w e = some w')
    (hno : ∀ p row at_ bytes, Commits w e p (.uploaded row at_ bytes) → row.id ≠ i) :
    w'.accepted i = w.accepted i := by
  have hm := step_moves hstep
  cases hm with
  | updated p rm wr locks hp =>
      show (w.leaveTry rm wr).accepted i = _
      rw [leaveTry_accepted]
  | committed p a rm wr db ha hp hdb =>
      cases wr with
      | uploaded row at_ bytes =>
          have hne := hno p row at_ bytes ⟨⟨a, rm, rfl, ha⟩, hp⟩
          exact Function.update_of_ne (Ne.symm hne) _ _
      | _ => rfl
  | _ => rfl

/-- The upload commits: what its file holds is what it accepted. -/
theorem kept_accepted (hw : Sound sv w) (hk : FilesKept sv w) {p : ℕ} {row : UploadSession}
    {at_ : ℤ} {bytes : Bytes} (hc : Commits w e p (.uploaded row at_ bytes))
    (hstep : (service sv).step w e = some w') {r' : UploadSession}
    (hr' : Retryable sv w' row.id r') :
    ∃ f, w'.original? row.id = some f ∧ w'.accepted row.id = some f.bytes := by
  have hm := step_moves hstep
  obtain ⟨⟨a, rm, rfl, ha⟩, hp⟩ := hc
  obtain ⟨r, hr, hlead⟩ : ∃ r, w.session? row.id = some r ∧ LeadsTo r r' := by
    obtain ⟨r, hr, -⟩ := hw.known p _ hp row List.mem_cons_self
    obtain ⟨r'', hr'', hlead⟩ := hm.sessions.leadsTo hr
    obtain rfl := Option.some.inj (hr'.row.symm.trans hr'')
    exact ⟨r, hr, hlead⟩
  have hnow : w.now ≤ r.expiresAt + sv.settings.grace := by
    have hle := hm.now_le
    have hlate := hr'.now
    rw [hlead.expiresAt] at hlate
    omega
  obtain ⟨f, hf, hbytes⟩ := hk.holds p _ row.id r hp rfl hr hnow
  obtain ⟨db, -, rfl⟩ := step_committing hp ha hstep
  refine ⟨f, hf, ?_⟩
  show Function.update w.accepted row.id (some bytes) row.id = _
  rw [Function.update_self, hbytes]

theorem kept_step (hw : Sound sv w) (hk : FilesKept sv w) (hc : FilesRespected sv w e)
    (hstep : (service sv).step w e = some w') {r' : UploadSession}
    (hr' : Retryable sv w' i r') :
    (∃ f, w'.original? i = some f ∧ w'.accepted i = some f.bytes) ∨
      w'.original? i = none ∧ Consuming w' i := by
  have hm := step_moves hstep
  by_cases haccept : ∃ p row at_ bytes, Commits w e p (.uploaded row at_ bytes) ∧ row.id = i
  · obtain ⟨p, row, at_, bytes, hcommit, rfl⟩ := haccept
    exact .inl (kept_accepted hw hk hcommit hstep hr')
  · have hr : Retryable sv w i r' := (retryable_before hw hm hr').resolve_right haccept
    have haccepted : w'.accepted i = w.accepted i :=
      accepted_step hstep fun p row at_ bytes hcommit hid =>
        haccept ⟨p, row, at_, bytes, hcommit, hid⟩
    have huploaded : r'.uploadedAt.isSome := (hw.rows i r' hr.row).uploaded hr.status
    -- a step that leaves the directory as it is
    have hsame (hdirs : w'.dirs i = w.dirs i) :
        (∃ f, w'.original? i = some f ∧ w'.accepted i = some f.bytes) ∨
          w'.original? i = none ∧ Consuming w' i := by
      rw [World.original?, hdirs, haccepted]
      rcases hk.kept i r' hr with hleft | ⟨hnone, hconsuming⟩
      · exact .inl hleft
      · exact .inr ⟨hnone, consuming_step hc hstep hr hr' hnone hconsuming⟩
    rcases hm.dirs i with hdirs | htouch
    · exact hsame hdirs
    · generalize hd : w'.dirs i = d at htouch
      cases htouch with
      | opens p rm plaintext filename row since he hp hid hcheck =>
          have hopens := (hc.opens p _ rm plaintext filename row since he (.inl rfl) hp hcheck).1
          exact absurd (hid ▸ hopens) (not_requested_of_retryable hr)
      | openFails p rm plaintext filename row since he hp hid hcheck =>
          have hopens := (hc.opens p _ rm plaintext filename row since he (.inr rfl) hp hcheck).1
          exact absurd (hid ▸ hopens) (not_requested_of_retryable hr)
      | streams p a rm row fh received d he hp hid =>
          rw [hk.pending p _ i r' hp (congrArg some hid) hr.row] at huploaded
          cases huploaded
      | cleans p a rm row h he hp hh ha hid =>
          subst hid
          exact hsame (hd.trans (hc.leaves p a rm h row he ha hp hh ⟨r', hr⟩))
      | consumes p rm row at_ tx result he hp hid =>
          subst he hid
          rcases rmtree_original (w.dirs row.id) (rm row.id) with hgone | hleft
          · refine .inr ⟨by rw [World.original?, hd, hgone], p, row, at_, tx, result, ?_, rfl⟩
            exact handlers_updated hp hstep
          · exact hsame (hd.trans hleft)
      | purges p rm rows c d he hp hmem hid =>
          exact absurd hid (not_purged hw hr.row hr.now hp c hmem)

theorem filesKept_step (hw : Sound sv w) (hk : FilesKept sv w) (hc : FilesRespected sv w e)
    (hstep : (service sv).step w e = some w') : FilesKept sv w' where
  alone := fun _ _ _ _ _ hp hq hi hj => alone_step hk hc (step_moves hstep) hp hq hi hj
  pending := fun _ _ _ _ hp hi hr => pending_step hw hk hc hstep hp hi hr
  holds := fun _ _ _ _ hp hi hr hnow => holds_step hw hk hc hstep hp hi hr hnow
  kept := fun _ _ hr => kept_step hw hk hc hstep hr

theorem filesKept_initial (hw : Initial w) : FilesKept sv w where
  alone := fun p q h h' i hp => by simp [hw.handlers p] at hp
  pending := fun p h i r hp => by simp [hw.handlers p] at hp
  holds := fun p h i r hp => by simp [hw.handlers p] at hp
  kept := fun i r hr => by
    have hrow := hr.row
    rw [session?_initial hw] at hrow
    cases hrow

theorem retryReady_of_filesKept (hk : FilesKept sv w) : RetryReady sv w := by
  intro i r hr hfree
  refine ⟨?_, checkUploadRow_eq_ok hr.status hr.now⟩
  rcases hk.kept i r hr with hfile | ⟨-, p, row, at_, tx, result, hp, hid⟩
  · exact hfile
  · exact absurd hid (hfree p _ hp row List.mem_cons_self)

end

/-! ### Runs -/

/-- In every state that a run reaches whose starts and uploads respect the
files, a session that can be started on has its bytes. -/
theorem retryReady_of_run (sv : Service) {w t : World} (hw : Initial w) {es : List Event}
    (hc : (service sv).Along (fun w e _ => FilesRespected sv w e) w es)
    (hrun : (service sv).run w es = some t) : RetryReady sv t := by
  have hinv := (service sv).invariant_along (C := FilesRespected sv)
    (I := fun w => Sound sv w ∧ FilesKept sv w)
    (fun _ _ _ hs hcond hstep =>
      ⟨sound_step hs.1 hstep, filesKept_step hs.1 hs.2 hcond hstep⟩)
    ⟨sound_initial hw, filesKept_initial hw⟩ hc hrun
  exact retryReady_of_filesKept hinv.2

/-- The condition as a test, for the handler that takes the step when no other
is in flight. -/
def filesCheck (w : World) : Event → Bool
  | .resume p a _ =>
      match w.handlers p with
      | some (.selected .audio _ _ row _) => !a.raises && w.db.status? row.id = some .requested
      | some (.orchestrating ..) => !a.raises
      | some (.writing (.consumed ..)) => !a.raises
      | some (.committing (.consumed ..)) => !a.raises
      | _ => true
  | _ => true

/-- With one handler in flight the test decides the condition. -/
theorem filesRespected_of_check {sv : Service} {w : World} {e : Event} {p₀ : ℕ}
    (hw : Single p₀ w) (hcheck : filesCheck w e = true) : FilesRespected sv w e where
  leaves := fun p a rm h row he ha hp hh => by
    subst he
    rcases hh with ⟨since, rfl⟩ | ⟨at_, tx, r, rfl⟩
    · simp [filesCheck, hp, ha] at hcheck
    · simp [filesCheck, hp, ha] at hcheck
  commits := fun p a rm row at_ tx r he ha hp => by
    subst he
    simp [filesCheck, hp, ha] at hcheck
  opens := fun p a rm plaintext filename row since he ha hp _ => by
    subst he
    simp only [filesCheck, hp, Bool.and_eq_true, decide_eq_true_eq] at hcheck
    refine ⟨hcheck.2, fun q h hq => ?_⟩
    obtain rfl := (hw q h hq).trans (hw p _ hp).symm
    obtain rfl := Option.some.inj (hp.symm.trans hq)
    exact fun h => nomatch h

/-- One audio session is requested and its body uploaded. -/
def oneUpload : List Event :=
  [requestAudio, .uploadAudio 0 uploadRequest] ++ finishUpload 0 [1, 2, 3, 4]

theorem retryReady_of_run_oneUpload :
    ∃ t, (service plainService).run emptyWorld oneUpload = some t ∧
      RetryReady plainService t := by
  have hcheck : (service plainService).checkAlong filesCheck emptyWorld oneUpload = true := by
    decide +kernel
  have hran : ((service plainService).run emptyWorld oneUpload).isSome = true := by
    decide +kernel
  obtain ⟨t, ht⟩ := Option.isSome_iff_exists.mp hran
  have hsingle : (service plainService).Along (fun w _ _ => Single 0 w) emptyWorld oneUpload :=
    along_single (single_initial initial_emptyWorld 0) (by decide)
  refine ⟨t, ht, retryReady_of_run plainService initial_emptyWorld ?_ ht⟩
  exact (hsingle.and _ ((service plainService).along_of_check hcheck)).mono _
    fun _ _ _ h => filesRespected_of_check h.1 h.2

/-- A start after the upload that finds the GPU busy. -/
def busyStart : List Event :=
  oneUpload ++ [start 0, go 0 .ok, go 0 (.failed (.gpuBusy 30))]

/-- What the busy start leaves behind: the session is `uploaded` and in time,
its handler is gone, and so are the bytes. -/
def leftWithoutFile (w : World) : Bool :=
  (w.session? 7).any (fun r => r.kind = .audio ∧ r.status = .uploaded ∧
    w.now ≤ r.expiresAt + plainService.settings.grace) &&
    (w.handlers 0).isNone && (w.original? 7).isNone

theorem retryReady_fails :
    ∃ (sv : Service) (w t : World) (es : List Event),
      Initial w ∧ (service sv).run w es = some t ∧ ¬ RetryReady sv t := by
  have hleft : ((service plainService).run emptyWorld busyStart).any leftWithoutFile = true := by
    decide +kernel
  obtain ⟨t, ht, hleft⟩ := (Option.any_eq_true _ _).mp hleft
  refine ⟨plainService, emptyWorld, t, busyStart, initial_emptyWorld, ht, fun hready => ?_⟩
  simp only [leftWithoutFile, Bool.and_eq_true, Option.isNone_iff_eq_none] at hleft
  obtain ⟨⟨hsession, hidle⟩, hnone⟩ := hleft
  obtain ⟨r, hr, hretryable⟩ := (Option.any_eq_true _ _).mp hsession
  obtain ⟨hkind, hstatus, hnow⟩ := of_decide_eq_true hretryable
  have hfree : ∀ p h, t.handlers p = some h → ∀ row ∈ h.rows, row.id ≠ 7 := by
    intro p h hp
    have hzero := single_run (single_initial initial_emptyWorld 0) (by decide) ht p h hp
    rw [hzero, hidle] at hp
    cases hp
  obtain ⟨⟨f, hf, -⟩, -⟩ := hready 7 r ⟨hr, hkind, hstatus, hnow⟩ hfree
  rw [hnone] at hf
  cases hf

end TranscriptionApi.Uploads
