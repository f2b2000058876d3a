import TranscriptionApi.Api.UploadGate
import TranscriptionApi.Uploads.World

/-!
What one step of the service can do. `Moves` lists the steps by their effect,
with the facts the code has checked when it takes them; `step_moves` says that
there are no others. Every invariant below is a case analysis on it, and none
opens a handler's code again.
-/

namespace TranscriptionApi.Uploads

open Api Auth Db Lib Mcp Pipeline Python

/-- The effects of which a session is to have one each. -/
inductive Use where
  /-- an upload committed -/
  | accepted
  /-- an upload request answered 200 -/
  | upload
  /-- a row inserted into `images` -/
  | image
  /-- a row of `start_transcription` committed to `transcriptions` -/
  | transcription
  deriving DecidableEq

namespace Entry

/-- The entry is such an effect of session `i`. -/
def uses (i : Uuid) : Use → Entry → Bool
  | .accepted, .uploadAccepted j => j = i
  | .upload, .uploadAnswered (some j) (.ok _) => j = i
  | .image, .imageInserted j _ => j = i
  | .transcription, .transcriptionInserted j _ => j = i
  | _, _ => false

/-- The entry is the COMMIT of a delete of `tid` by `u`. -/
def deletes (u tid : Uuid) : Entry → Bool
  | .transcriptionDeleted v i => v = u && i = tid
  | _ => false

/-- The entry reports an error, or nothing that is stored. -/
def Refusal : Entry → Prop
  | .uploadAccepted _ => False
  | .uploadAnswered _ (.ok _) => False
  | .imageInserted .. => False
  | .startAnswered _ (.ok _) => False
  | .transcriptionInserted .. => False
  | .transcriptionDeleted .. => False
  | .deleteAnswered _ _ (.ok _) => False
  | _ => True

theorem Refusal.uses {e : Entry} (h : e.Refusal) (i : Uuid) (k : Use) : e.uses i k = false := by
  cases e with
  | uploadAnswered s answer =>
      cases answer with
      | ok j => exact h.elim
      | _ => cases k <;> cases s <;> rfl
  | uploadAccepted j => exact h.elim
  | imageInserted j imageId => exact h.elim
  | transcriptionInserted j txId => exact h.elim
  | _ => cases k <;> rfl

theorem Refusal.deletes {e : Entry} (h : e.Refusal) (u tid : Uuid) : e.deletes u tid = false := by
  cases e with
  | transcriptionDeleted v i => exact h.elim
  | _ => rfl

end Entry

theorem Write.refusal_failure (wr : Write) : wr.failure.Refusal := by
  cases wr with
  | _ => trivial

theorem checkSession_error {settings : Settings} {sha256Hex : Bytes → String} {kind : UploadKind}
    {now : ℤ} {plaintext : String} {row : UploadSession} {answer : UploadAnswer} (i : Option Uuid)
    (h : checkSession settings sha256Hex kind now plaintext row = .error answer) :
    Entry.Refusal (.uploadAnswered i answer) := by
  unfold checkSession at h
  split at h
  · cases h
    trivial
  · split at h
    · cases h
      trivial
    · split at h
      · cases h
        trivial
      · split at h
        · cases h
          trivial
        · cases h

/-- The effects of one step from `w`. -/
inductive Moves (sv : Service) (w : World) : Event → World → Prop
  | tick (d : ℕ) : Moves sv w (.tick d) { w with now := w.now + d }
  | idle (e : Event) : Moves sv w e w
  | requested (e : Event) (row : UploadSession) (t : Table UploadSession UploadSession.id)
      (hfree : w.db.uploadSessions.find? row.id = none)
      (hnonce : ∀ r ∈ w.db.uploadSessions.rows, r.nonce ≠ row.nonce)
      (hrows : t.rows = w.db.uploadSessions.rows ++ [row]) (hstatus : row.status = .requested)
      (huploaded : row.uploadedAt = none) (hconsumed : row.consumedAt = none)
      (hbound : ∀ tid, row.transcriptionId = some tid →
        ∃ tx, w.db.transcriptions.find? tid = some tx ∧ tx.userId = row.userId) :
      Moves sv w e { w with db := { w.db with uploadSessions := t } }
  | posted (e : Event) (tx : Transcription) (t : Table Transcription Transcription.id)
      (hinsert : w.db.transcriptions.insert? tx = some t) :
      Moves sv w e { w with db := { w.db with transcriptions := t } }
  | refused (e : Event) (p : ℕ) (entry : Entry) (he : e.actor = some p)
      (hp : w.handlers p = none) (hentry : entry.Refusal) : Moves sv w e (w.finish p [entry])
  | selected (e : Event) (p : ℕ) (kind : UploadKind) (plaintext : String)
      (filename : Option String) (row : UploadSession) (he : e.actor = some p)
      (hp : w.handlers p = none) (hrow : w.db.uploadSessions.find? row.id = some row)
      (hstatus : row.status = .requested) :
      Moves sv w e (w.goto p (.selected kind plaintext filename row w.now))
  | loading (e : Event) (p : ℕ) (row : UploadSession) (he : e.actor = some p)
      (hp : w.handlers p = none) (hrow : w.db.uploadSessions.find? row.id = some row)
      (hkind : row.kind = .audio) :
      Moves sv w e (w.goto p (.loading row w.now))
  | deleting (e : Event) (p : ℕ) (u tid : Uuid) (he : e.actor = some p)
      (hp : w.handlers p = none) : Moves sv w e (w.goto p (.deleting ⟨u, tid, w.now⟩))
  | purging (e : Event) (p : ℕ) (he : e.actor = some p) (hp : w.handlers p = none) :
      Moves sv w e (w.goto p (.purging (w.now - sv.settings.grace)))
  | opened (p : ℕ) (rm : Uuid → RmOutcome) (plaintext : String) (filename : Option String)
      (row : UploadSession) (since : ℤ)
      (hp : w.handlers p = some (.selected .audio plaintext filename row since))
      (hnow : w.now ≤ row.expiresAt + sv.settings.grace) (hkind : row.kind = .audio)
      (hcheck : checkSession sv.settings sv.sha256Hex .audio w.now plaintext row = .ok ()) :
      Moves sv w (.resume p .ok rm) (openOriginal w p row)
  | openFailed (p : ℕ) (rm : Uuid → RmOutcome) (plaintext : String) (filename : Option String)
      (row : UploadSession) (since : ℤ)
      (hp : w.handlers p = some (.selected .audio plaintext filename row since))
      (hcheck : checkSession sv.settings sv.sha256Hex .audio w.now plaintext row = .ok ()) :
      Moves sv w (.resume p .openFailed rm)
        ((w.setDir row.id (some ⟨none⟩)).finish p [.uploadAnswered (some row.id) .raised])
  | reading (p : ℕ) (rm : Uuid → RmOutcome) (plaintext : String) (filename : Option String)
      (row : UploadSession) (since : ℤ)
      (hp : w.handlers p = some (.selected .image plaintext filename row since))
      (hkind : row.kind = .image) :
      Moves sv w (.resume p .ok rm) (w.goto p (.reading filename row since))
  | chunk (p : ℕ) (rm : Uuid → RmOutcome) (row : UploadSession) (fh : Handle)
      (received bytes : Bytes) (hp : w.handlers p = some (.streaming row fh received)) :
      Moves sv w (.resume p (.chunk bytes) rm)
        ((w.setDir row.id (writeTo (w.dirs row.id) fh bytes)).goto p
          (.streaming row { fh with pos := fh.pos + bytes.length } (received ++ bytes)))
  | received (p : ℕ) (rm : Uuid → RmOutcome) (row : UploadSession) (fh : Handle)
      (received : Bytes) (hp : w.handlers p = some (.streaming row fh received)) :
      Moves sv w (.resume p (.chunk []) rm) (w.goto p (.writing (.uploaded row w.now received)))
  | unlinked (p : ℕ) (a : Await) (rm : Uuid → RmOutcome) (row : UploadSession) (fh : Handle)
      (received : Bytes) (answer : UploadAnswer)
      (hp : w.handlers p = some (.streaming row fh received))
      (hanswer : Entry.Refusal (.uploadAnswered (some row.id) answer)) :
      Moves sv w (.resume p a rm) (unlinkAndFinish w p row answer)
  | image (p : ℕ) (a : Await) (rm : Uuid → RmOutcome) (filename : Option String)
      (row : UploadSession) (since : ℤ) (img : Image) (blobs : String → Option Bytes)
      (hp : w.handlers p = some (.reading filename row since)) (hdeleted : img.deletedAt = none)
      (hbound : row.transcriptionId = some img.transcriptionId) (huser : img.userId = row.userId) :
      Moves sv w (.resume p a rm)
        { w.goto p (.writing (.imageUploaded row w.now img)) with blobs := blobs }
  | passed (p : ℕ) (rm : Uuid → RmOutcome) (row : UploadSession) (since : ℤ)
      (hp : w.handlers p = some (.loading row since)) (hstatus : row.status = .uploaded)
      (hnow : w.now ≤ row.expiresAt + sv.settings.grace) :
      Moves sv w (.resume p .ok rm) (w.goto p (.orchestrating row since))
  | orchestrated (p : ℕ) (rm : Uuid → RmOutcome) (row : UploadSession) (since : ℤ)
      (r : TranscriptionResult) (txId : Uuid)
      (hp : w.handlers p = some (.orchestrating row since)) :
      Moves sv w (.resume p (.result r txId) rm)
        (w.goto p (.writing (.consumed row w.now (transcriptionRow row txId since r) r)))
  | cleaned (p : ℕ) (a : Await) (rm : Uuid → RmOutcome) (row : UploadSession) (h : Handler)
      (entry : Entry) (hp : w.handlers p = some h)
      (hh : (∃ since, h = .orchestrating row since) ∨
        ∃ at_ tx r, h = .writing (.consumed row at_ tx r))
      (ha : a.raises = true) (hentry : entry.Refusal) :
      Moves sv w (.resume p a rm) ((w.cleanupUploadDir rm row.id).finish p [entry])
  | candidates (p : ℕ) (rm : Uuid → RmOutcome) (cutoff : ℤ)
      (hp : w.handlers p = some (.purging cutoff)) :
      Moves sv w (.resume p .ok rm) (w.goto p (.purgeSelected (expiredCandidates w.db cutoff)))
  | purgeStopped (p : ℕ) (rm : Uuid → RmOutcome) (rows : List UploadSession) (entry : Entry)
      (hp : w.handlers p = some (.purgeSelected rows)) (hentry : entry.Refusal) :
      Moves sv w (.resume p .ok rm)
        (World.finish { w with dirs := (purgeDirs rm rows w.dirs).1 } p [entry])
  | purged (p : ℕ) (rm : Uuid → RmOutcome) (rows : List UploadSession)
      (hp : w.handlers p = some (.purgeSelected rows)) :
      Moves sv w (.resume p .ok rm)
        (World.goto { w with dirs := (purgeDirs rm rows w.dirs).1 } p (.writing (.expired rows)))
  | updated (p : ℕ) (rm : Uuid → RmOutcome) (wr : Write) (locks : Uuid → Option ℕ)
      (hp : w.handlers p = some (.writing wr)) :
      Moves sv w (.resume p .ok rm)
        { (w.leaveTry rm wr).goto p (.committing wr) with locks := locks }
  | committed (p : ℕ) (a : Await) (rm : Uuid → RmOutcome) (wr : Write) (db : Database)
      (ha : a.commits = true) (hp : w.handlers p = some (.committing wr))
      (hdb : wr.apply w.db = some db) :
      Moves sv w (.resume p a rm) { (w.accept wr).finish p (wr.entries a) with db := db }
  | cascading (p : ℕ) (rm : Uuid → RmOutcome) (del : Deletion) (deleteLocks : Uuid → Option ℕ)
      (hp : w.handlers p = some (.deleting del)) (hhits : del.hits w.db ≠ []) :
      Moves sv w (.resume p .ok rm) { w.goto p (.cascading del) with deleteLocks := deleteLocks }
  | cascaded (p : ℕ) (rm : Uuid → RmOutcome) (del : Deletion)
      (hp : w.handlers p = some (.cascading del)) :
      Moves sv w (.resume p .ok rm) (w.goto p (.deleted del (del.cascade w.db)))
  | deleted (p : ℕ) (a : Await) (rm : Uuid → RmOutcome) (del : Deletion) (found : List Uuid)
      (ha : a.commits = true) (hp : w.handlers p = some (.deleted del found)) :
      Moves sv w (.resume p a rm)
        { w.finish p (del.entries a) with db := del.apply found w.db }
  | ended (p : ℕ) (a : Await) (rm : Uuid → RmOutcome) (h : Handler) (entry : Entry)
      (hp : w.handlers p = some h) (hentry : entry.Refusal) :
      Moves sv w (.resume p a rm) (w.finish p [entry])

section Inversion

variable {sv : Service} {w w' : World} {p : ℕ} {rm : Uuid → RmOutcome} {e : Event}

theorem spawn_eq_some {w₀ : World} (h : w.spawn p w₀ = some w') :
    w.handlers p = none ∧ w' = w₀ := by
  unfold World.spawn at h
  split at h
  · cases h
  · rename_i hp
    cases h
    exact ⟨by simpa using hp, rfl⟩

theorem beginUpload_moves {kind : UploadKind} {req : UploadRequest} {filename : Option String}
    (he : e.actor = some p) (hp : w.handlers p = none) :
    Moves sv w e (beginUpload w p kind req filename) := by
  unfold beginUpload
  split
  · exact .refused e p _ he hp trivial
  · split
    · exact .refused e p _ he hp trivial
    · rename_i hrow
      obtain ⟨hfind, -, hstatus⟩ := selectRequested_spec hrow
      exact .selected e p _ _ _ _ he hp hfind hstatus

theorem beginDelete_moves {userId : Uuid} {transcriptionId : String} (he : e.actor = some p)
    (hp : w.handlers p = none) : Moves sv w e (beginDelete w p userId transcriptionId) := by
  unfold beginDelete
  split
  · exact .refused e p _ he hp trivial
  · exact .deleting e p _ _ he hp

theorem beginStart_moves {status : Option RuntimeStatus} {userId : Uuid} {uploadId : String}
    (he : e.actor = some p) (hp : w.handlers p = none) :
    Moves sv w e (beginStart w p status userId uploadId) := by
  unfold beginStart
  split
  · exact .refused e p _ he hp trivial
  · split
    · exact .refused e p _ he hp trivial
    · rename_i hrow
      obtain ⟨hfind, hkind, -⟩ := selectUpload_ok hrow
      exact .loading e p _ he hp hfind hkind

theorem resumeSelected_moves {kind : UploadKind} {plaintext : String} {filename : Option String}
    {row : UploadSession} {since : ℤ} {a : Await}
    (hp : w.handlers p = some (.selected kind plaintext filename row since))
    (h : resumeSelected sv w p kind plaintext filename row since a = some w') :
    Moves sv w (.resume p a rm) w' := by
  cases a with
  | ok =>
      simp only [resumeSelected] at h
      cases hcheck : checkSession sv.settings sv.sha256Hex kind w.now plaintext row with
      | error answer =>
          simp only [hcheck, Option.some.injEq] at h
          subst h
          exact .ended p _ rm _ _ hp (checkSession_error _ hcheck)
      | ok _ =>
          obtain ⟨hnow, hkind, -⟩ := checkSession_ok sv.settings sv.sha256Hex hcheck
          cases kind with
          | audio =>
              simp only [hcheck, Option.some.injEq] at h
              subst h
              exact .opened p rm _ _ row since hp hnow hkind hcheck
          | image =>
              simp only [hcheck, Option.some.injEq] at h
              subst h
              exact .reading p rm _ _ row since hp hkind
  | openFailed =>
      simp only [resumeSelected] at h
      cases hcheck : checkSession sv.settings sv.sha256Hex kind w.now plaintext row with
      | error answer => simp [hcheck] at h
      | ok _ =>
          cases kind with
          | audio =>
              simp only [hcheck, Option.some.injEq] at h
              subst h
              exact .openFailed p rm _ _ row since hp hcheck
          | image => simp [hcheck] at h
  | raised =>
      cases h
      exact .ended p _ rm _ _ hp trivial
  | cancelled =>
      cases h
      exact .ended p _ rm _ _ hp trivial
  | _ => cases h

theorem resumeStreaming_moves {row : UploadSession} {fh : Handle} {received : Bytes} {a : Await}
    (hp : w.handlers p = some (.streaming row fh received))
    (h : resumeStreaming sv w p row fh received a = some w') :
    Moves sv w (.resume p a rm) w' := by
  cases a with
  | chunk bytes =>
      cases bytes with
      | nil =>
          cases h
          exact .received p rm row fh received hp
      | cons b bs =>
          simp only [resumeStreaming] at h
          split at h
          · cases h
            exact .unlinked p _ rm row fh received _ hp trivial
          · cases h
            exact .chunk p rm row fh received (b :: bs) hp
  | raised =>
      cases h
      exact .unlinked p _ rm row fh received _ hp trivial
  | cancelled =>
      cases h
      exact .ended p _ rm _ _ hp trivial
  | _ => cases h

theorem resumeReading_moves {filename : Option String} {row : UploadSession} {since : ℤ}
    {a : Await} (hp : w.handlers p = some (.reading filename row since))
    (h : resumeReading sv w p filename row since a = some w') :
    Moves sv w (.resume p a rm) w' := by
  cases a with
  | body raw imageId =>
      simp only [resumeReading] at h
      split at h
      · cases h
        exact .ended p _ rm _ _ hp trivial
      · rename_i hcheck
        cases h
        exact .image p _ rm _ row since _ _ hp rfl (checkImage_ok hcheck) rfl
  | raised =>
      cases h
      exact .ended p _ rm _ _ hp trivial
  | cancelled =>
      cases h
      exact .ended p _ rm _ _ hp trivial
  | _ => cases h

theorem resumeLoading_moves {row : UploadSession} {since : ℤ} {a : Await}
    (hp : w.handlers p = some (.loading row since))
    (h : resumeLoading sv w p row since a = some w') :
    Moves sv w (.resume p a rm) w' := by
  cases a with
  | ok =>
      simp only [resumeLoading] at h
      split at h
      · cases h
        exact .ended p _ rm _ _ hp trivial
      · rename_i hcheck
        cases h
        obtain ⟨hstatus, hnow⟩ := checkUploadRow_ok hcheck
        exact .passed p rm row since hp hstatus hnow
  | raised =>
      cases h
      exact .ended p _ rm _ _ hp trivial
  | cancelled =>
      cases h
      exact .ended p _ rm _ _ hp trivial
  | _ => cases h

theorem resumeOrchestrating_moves {row : UploadSession} {since : ℤ} {a : Await}
    (hp : w.handlers p = some (.orchestrating row since))
    (h : resumeOrchestrating sv w p rm row since a = some w') : Moves sv w (.resume p a rm) w' := by
  cases a with
  | result r txId =>
      cases h
      exact .orchestrated p rm row since r txId hp
  | failed e =>
      cases h
      exact .cleaned p _ rm row _ _ hp (.inl ⟨since, rfl⟩) rfl trivial
  | cancelled =>
      cases h
      exact .cleaned p _ rm row _ _ hp (.inl ⟨since, rfl⟩) rfl trivial
  | _ => cases h

theorem resumePurging_moves {cutoff : ℤ} {a : Await}
    (hp : w.handlers p = some (.purging cutoff)) (h : resumePurging w p cutoff a = some w') :
    Moves sv w (.resume p a rm) w' := by
  cases a with
  | ok =>
      cases h
      exact .candidates p rm cutoff hp
  | raised =>
      cases h
      exact .ended p _ rm _ _ hp trivial
  | cancelled =>
      cases h
      exact .ended p _ rm _ _ hp trivial
  | _ => cases h

theorem resumePurgeSelected_moves {rows : List UploadSession} {a : Await}
    (hp : w.handlers p = some (.purgeSelected rows))
    (h : resumePurgeSelected w p rm rows a = some w') : Moves sv w (.resume p a rm) w' := by
  cases a with
  | ok =>
      simp only [resumePurgeSelected] at h
      split at h
      · cases h
        exact .purgeStopped p rm rows _ hp trivial
      · split at h
        · cases h
          exact .purgeStopped p rm rows _ hp trivial
        · cases h
          exact .purged p rm rows hp
  | raised =>
      cases h
      exact .ended p _ rm _ _ hp trivial
  | cancelled =>
      cases h
      exact .ended p _ rm _ _ hp trivial
  | _ => cases h

/-- An UPDATE that raises: only `start_transcription` has a directory to remove
on the way out. -/
theorem leaveTry_moves {wr : Write} {a : Await} (hp : w.handlers p = some (.writing wr))
    (ha : a.raises = true) :
    Moves sv w (.resume p a rm) ((w.leaveTry rm wr).finish p [wr.failure]) := by
  cases wr with
  | consumed row at_ tx r =>
      exact .cleaned p a rm row _ _ hp (.inr ⟨at_, tx, r, rfl⟩) ha (Write.refusal_failure _)
  | _ => exact .ended p a rm _ _ hp (Write.refusal_failure _)

theorem resumeWriting_moves {wr : Write} {a : Await} (hp : w.handlers p = some (.writing wr))
    (h : resumeWriting w p rm wr a = some w') : Moves sv w (.resume p a rm) w' := by
  cases a with
  | ok =>
      simp only [resumeWriting] at h
      split at h
      · cases h
        exact .updated p rm wr _ hp
      · cases h
  | raised =>
      cases h
      exact leaveTry_moves hp rfl
  | cancelled =>
      cases h
      exact leaveTry_moves hp rfl
  | _ => cases h

theorem resumeCommitting_moves {wr : Write} {a : Await}
    (hp : w.handlers p = some (.committing wr)) (h : resumeCommitting w p wr a = some w') :
    Moves sv w (.resume p a rm) w' := by
  cases a with
  | ok =>
      obtain ⟨db, hdb, rfl⟩ := Option.map_eq_some_iff.mp h
      exact .committed p _ rm wr db rfl hp hdb
  | lost =>
      obtain ⟨db, hdb, rfl⟩ := Option.map_eq_some_iff.mp h
      exact .committed p _ rm wr db rfl hp hdb
  | raised =>
      cases h
      exact .ended p _ rm _ _ hp wr.refusal_failure
  | cancelled =>
      cases h
      exact .ended p _ rm _ _ hp wr.refusal_failure
  | _ => cases h

theorem resumeDeleting_moves {del : Deletion} {a : Await}
    (hp : w.handlers p = some (.deleting del)) (h : resumeDeleting w p del a = some w') :
    Moves sv w (.resume p a rm) w' := by
  cases a with
  | ok =>
      simp only [resumeDeleting] at h
      split at h
      · cases h
        exact .ended p _ rm _ _ hp trivial
      · rename_i hhits
        split at h
        · cases h
        · cases h
          exact .cascading p rm del _ hp (by simpa using hhits)
  | raised =>
      cases h
      exact .ended p _ rm _ _ hp trivial
  | cancelled =>
      cases h
      exact .ended p _ rm _ _ hp trivial
  | _ => cases h

theorem resumeCascading_moves {del : Deletion} {a : Await}
    (hp : w.handlers p = some (.cascading del)) (h : resumeCascading w p del a = some w') :
    Moves sv w (.resume p a rm) w' := by
  cases a with
  | ok =>
      cases h
      exact .cascaded p rm del hp
  | raised =>
      cases h
      exact .ended p _ rm _ _ hp trivial
  | cancelled =>
      cases h
      exact .ended p _ rm _ _ hp trivial
  | _ => cases h

theorem resumeDeleted_moves {del : Deletion} {found : List Uuid} {a : Await}
    (hp : w.handlers p = some (.deleted del found))
    (h : resumeDeleted w p del found a = some w') : Moves sv w (.resume p a rm) w' := by
  cases a with
  | ok =>
      cases h
      exact .deleted p _ rm del found rfl hp
  | lost =>
      cases h
      exact .deleted p _ rm del found rfl hp
  | raised =>
      cases h
      exact .ended p _ rm _ _ hp trivial
  | cancelled =>
      cases h
      exact .ended p _ rm _ _ hp trivial
  | _ => cases h

theorem resume_moves {h : Handler} {a : Await} (hp : w.handlers p = some h)
    (hstep : resume sv w p rm h a = some w') : Moves sv w (.resume p a rm) w' := by
  cases h with
  | selected kind plaintext filename row since => exact resumeSelected_moves hp hstep
  | streaming row fh received => exact resumeStreaming_moves hp hstep
  | reading filename row since => exact resumeReading_moves hp hstep
  | loading row since => exact resumeLoading_moves hp hstep
  | orchestrating row since => exact resumeOrchestrating_moves hp hstep
  | purging cutoff => exact resumePurging_moves hp hstep
  | purgeSelected rows => exact resumePurgeSelected_moves hp hstep
  | writing wr => exact resumeWriting_moves hp hstep
  | committing wr => exact resumeCommitting_moves hp hstep
  | deleting del => exact resumeDeleting_moves hp hstep
  | cascading del => exact resumeCascading_moves hp hstep
  | deleted del found => exact resumeDeleted_moves hp hstep

theorem insertUploadSession_nonce {t t' : Table UploadSession UploadSession.id}
    {row : UploadSession} (h : insertUploadSession t row = some t') :
    ∀ r ∈ t.rows, r.nonce ≠ row.nonce := by
  intro r hr heq
  unfold insertUploadSession at h
  rw [if_pos (List.any_eq_true.mpr ⟨r, hr, decide_eq_true heq⟩)] at h
  cases h

/-- A call of `request_upload_url` inserts one fresh row, or nothing. -/
theorem requestUploadUrl_moves (secrets : UploadSecrets) (userId bearerId : Uuid) (kind : String)
    (size : ℤ) (mime tid : Option String) :
    Moves sv w e { w with
      db := (requestUploadUrl sv.settings sv.sha256Hex w.now secrets userId bearerId kind size
        mime tid w.db).2 } := by
  rcases requestUploadUrl_effect sv.settings sv.sha256Hex w.now secrets userId bearerId kind size
    mime tid w.db with hsame | ⟨uploadKind, hash, tid', t, hbind, ht, heq⟩
  · rw [hsame]
    exact .idle e
  · rw [heq]
    obtain ⟨hrows, hfree⟩ := insertUploadSession_eq_some ht
    refine .requested e _ t hfree (insertUploadSession_nonce ht) hrows rfl rfl rfl ?_
    intro tid htid
    have hbound : tid' = some tid := htid
    rw [hbound] at hbind
    obtain ⟨tx, htx, huser, -⟩ := bindTranscription_ok hbind
    exact ⟨tx, htx, huser⟩

theorem step_moves (h : step sv w e = some w') : Moves sv w e w' := by
  cases e with
  | tick d =>
      cases h
      exact .tick d
  | requestUploadUrl secrets userId bearerId kind size mime tid =>
      cases h
      exact requestUploadUrl_moves secrets userId bearerId kind size mime tid
  | deleteTranscription p userId tid =>
      obtain ⟨hp, rfl⟩ := spawn_eq_some h
      exact beginDelete_moves rfl hp
  | postTranscription userId filename bytesWritten txId since r =>
      obtain ⟨db, hdb, rfl⟩ := Option.map_eq_some_iff.mp h
      obtain ⟨t, ht, rfl⟩ := Option.map_eq_some_iff.mp hdb
      exact .posted _ _ t ht
  | uploadAudio p req =>
      obtain ⟨hp, rfl⟩ := spawn_eq_some h
      exact beginUpload_moves rfl hp
  | uploadImage p req filename =>
      obtain ⟨hp, rfl⟩ := spawn_eq_some h
      exact beginUpload_moves rfl hp
  | startTranscription p status userId uploadId =>
      obtain ⟨hp, rfl⟩ := spawn_eq_some h
      exact beginStart_moves rfl hp
  | purge p =>
      obtain ⟨hp, rfl⟩ := spawn_eq_some h
      exact .purging _ p rfl hp
  | resume p a rm =>
      obtain ⟨handler, hp, hresume⟩ := Option.bind_eq_some_iff.mp h
      exact resume_moves hp hresume

/-- The step of a handler whose COMMIT takes effect. -/
theorem step_committing {wr : Write} {a : Await} (hp : w.handlers p = some (.committing wr))
    (ha : a.commits = true) (h : (service sv).step w (.resume p a rm) = some w') :
    ∃ db, wr.apply w.db = some db ∧
      w' = { (w.accept wr).finish p (wr.entries a) with db := db } := by
  change ((w.handlers p).bind fun h => resume sv w p rm h a) = some w' at h
  rw [hp, Option.bind_some] at h
  cases a with
  | ok =>
      obtain ⟨db, hdb, rfl⟩ := Option.map_eq_some_iff.mp h
      exact ⟨db, hdb, rfl⟩
  | lost =>
      obtain ⟨db, hdb, rfl⟩ := Option.map_eq_some_iff.mp h
      exact ⟨db, hdb, rfl⟩
  | _ => cases ha

/-- The step commits the write of handler `p`. -/
structure Commits (w : World) (e : Event) (p : ℕ) (wr : Write) : Prop where
  event : ∃ a rm, e = .resume p a rm ∧ a.commits = true
  handler : w.handlers p = some (.committing wr)

/-- A step is a COMMIT, or commits no write. -/
theorem commit_cases (h : (service sv).step w e = some w') :
    (∃ p a wr db, Commits w e p wr ∧ wr.apply w.db = some db ∧
        w' = { (w.accept wr).finish p (wr.entries a) with db := db }) ∨
      ∀ p wr, ¬ Commits w e p wr := by
  by_cases hcommit : ∃ p wr, Commits w e p wr
  · obtain ⟨p, wr, ⟨a, rm, rfl, ha⟩, hp⟩ := hcommit
    obtain ⟨db, hdb, hw'⟩ := step_committing hp ha h
    exact .inl ⟨p, a, wr, db, ⟨⟨a, rm, rfl, ha⟩, hp⟩, hdb, hw'⟩
  · exact .inr fun p wr hc => hcommit ⟨p, wr, hc⟩

/-- A step commits one write at most. -/
theorem Commits.unique {p q : ℕ} {wr wr' : Write} (h : Commits w e p wr)
    (h' : Commits w e q wr') : q = p ∧ wr' = wr := by
  obtain ⟨⟨a, rm, rfl, -⟩, hp⟩ := h
  obtain ⟨⟨a', rm', he, -⟩, hq⟩ := h'
  obtain ⟨rfl, -, -⟩ := (Event.resume.injEq ..).mp he
  cases hp.symm.trans hq
  exact ⟨rfl, rfl⟩

/-- What is asked of the COMMIT that a step makes is asked of its write. -/
theorem Commits.forall_iff {p : ℕ} {wr : Write} (h : Commits w e p wr) {Q : Write → Prop} :
    (∀ p' wr', Commits w e p' wr' → Q wr') ↔ Q wr := by
  constructor
  · exact fun hall => hall p wr h
  · rintro hQ p' wr' h'
    obtain ⟨rfl, rfl⟩ := h.unique h'
    exact hQ

/-- The step commits the delete of handler `p`. -/
structure CommitsDelete (w : World) (e : Event) (p : ℕ) (del : Deletion) (found : List Uuid) :
    Prop where
  event : ∃ a rm, e = .resume p a rm ∧ a.commits = true
  handler : w.handlers p = some (.deleted del found)

theorem CommitsDelete.unique {p q : ℕ} {del del' : Deletion} {found found' : List Uuid}
    (h : CommitsDelete w e p del found) (h' : CommitsDelete w e q del' found') :
    del' = del ∧ found' = found := by
  obtain ⟨⟨a, rm, rfl, -⟩, hp⟩ := h
  obtain ⟨⟨a', rm', he, -⟩, hq⟩ := h'
  obtain ⟨rfl, -, -⟩ := (Event.resume.injEq ..).mp he
  cases hp.symm.trans hq
  exact ⟨rfl, rfl⟩

theorem Commits.not_delete {p q : ℕ} {wr : Write} {del : Deletion} {found : List Uuid}
    (h : Commits w e p wr) : ¬ CommitsDelete w e q del found := by
  rintro ⟨⟨a', rm', he, -⟩, hq⟩
  obtain ⟨⟨a, rm, rfl, -⟩, hp⟩ := h
  obtain ⟨rfl, -, -⟩ := (Event.resume.injEq ..).mp he
  cases hp.symm.trans hq

/-- The step of a delete whose COMMIT takes effect. -/
theorem CommitsDelete.effect {del : Deletion} {found : List Uuid}
    (hc : CommitsDelete w e p del found) (h : (service sv).step w e = some w') :
    w'.db = del.apply found w.db ∧ ∃ a, w'.log = w.log ++ del.entries a := by
  obtain ⟨⟨a, rm, rfl, ha⟩, hp⟩ := hc
  change ((w.handlers p).bind fun h => resume sv w p rm h a) = some w' at h
  rw [hp, Option.bind_some] at h
  cases a with
  | ok =>
      obtain rfl := Option.some.inj h
      exact ⟨rfl, .ok, rfl⟩
  | lost =>
      obtain rfl := Option.some.inj h
      exact ⟨rfl, .lost, rfl⟩
  | _ => cases ha

/-- A request that `uploadGate` refuses is answered so: at once, or after the
SELECT by the clock of that turn. -/
theorem answered_of_uploadGate {kind : UploadKind} {req : UploadRequest} {answer : UploadAnswer}
    (filename : Option String) (p : ℕ)
    (h : uploadGate sv.settings sv.sha256Hex kind w.now w.db req = .error answer) :
    (∃ i, beginUpload w p kind req filename = w.finish p [.uploadAnswered i answer]) ∨
      ∃ plaintext row i,
        beginUpload w p kind req filename =
          w.goto p (.selected kind plaintext filename row w.now) ∧
        resumeSelected sv w p kind plaintext filename row w.now .ok =
          some (w.finish p [.uploadAnswered i answer]) := by
  unfold uploadGate at h
  unfold beginUpload
  cases htoken : parseBearer req.authorization with
  | none =>
      rw [htoken] at h
      cases h
      exact .inl ⟨none, rfl⟩
  | some plaintext =>
      cases hselect : selectRequested w.db req.sessionNonce with
      | none =>
          simp only [htoken, hselect] at h
          cases h
          exact .inl ⟨none, rfl⟩
      | some row =>
          refine .inr ⟨plaintext, row, some row.id, rfl, ?_⟩
          simp only [htoken, hselect] at h
          cases hcheck : checkSession sv.settings sv.sha256Hex kind w.now plaintext row with
          | ok u =>
              rw [hcheck] at h
              cases h
          | error e =>
              rw [hcheck] at h
              cases h
              simp only [resumeSelected, hcheck]

end Inversion

end TranscriptionApi.Uploads
