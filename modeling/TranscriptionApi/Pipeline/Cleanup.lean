import TranscriptionApi.Db.Models
import TranscriptionApi.Uploads.Files

/-!
`purge_expired_upload_sessions`: the rows it selects, the directories it
removes one after the other, and the UPDATE at the end. A removal that raises
`FileNotFoundError` or `PermissionError` is logged and the pass goes on; any
other `OSError` leaves the function before the UPDATE.
-/

namespace TranscriptionApi.Pipeline

open Db Lib Python Uploads

/-- The sessions the SELECT of a pass returns. -/
def expiredCandidates (db : Database) (cutoff : ℤ) : List UploadSession :=
  db.uploadSessions.select fun r =>
    (r.status = .requested || r.status = .uploaded) && r.expiresAt < cutoff

theorem mem_expiredCandidates {db : Database} {cutoff : ℤ} {r : UploadSession} :
    r ∈ expiredCandidates db cutoff ↔
      r ∈ db.uploadSessions.rows ∧ (r.status = .requested ∨ r.status = .uploaded) ∧
        r.expiresAt < cutoff := by
  simp [expiredCandidates]

/-- The removals of a pass: the directories afterwards, and whether the loop
came to its end. -/
def purgeDirs (rm : Uuid → RmOutcome) :
    List UploadSession → (Uuid → Option UploadDir) → (Uuid → Option UploadDir) × Bool
  | [], dirs => (dirs, true)
  | r :: rows, dirs =>
      if (dirs r.id).isNone then purgeDirs rm rows dirs
      else
        let removed := Function.update dirs r.id (rmtree (dirs r.id) (rm r.id))
        match rm r.id with
        | .failed .other _ => (removed, false)
        | _ => purgeDirs rm rows removed

/-- A pass touches no directory but those of its candidates. -/
theorem purgeDirs_of_notMem {rm : Uuid → RmOutcome} {rows : List UploadSession}
    {dirs : Uuid → Option UploadDir} {i : Uuid} (h : ∀ r ∈ rows, r.id ≠ i) :
    (purgeDirs rm rows dirs).1 i = dirs i := by
  induction rows generalizing dirs with
  | nil => rfl
  | cons r rows ih =>
      have hrest : ∀ r' ∈ rows, r'.id ≠ i := fun r' hr' => h r' (List.mem_cons_of_mem r hr')
      have hi : i ≠ r.id := (h r List.mem_cons_self).symm
      simp only [purgeDirs]
      split
      · exact ih hrest
      · split
        · exact Function.update_of_ne hi _ _
        · rw [ih hrest]
          exact Function.update_of_ne hi _ _

/-- `UPDATE upload_sessions SET status = 'expired' WHERE id IN (...)`. -/
def markExpired (rows : List UploadSession) (t : Table UploadSession UploadSession.id) :
    Table UploadSession UploadSession.id :=
  t.update (fun r => rows.any fun c => c.id = r.id)
    (fun r => { r with status := .expired }) fun _ => rfl

end TranscriptionApi.Pipeline
