import TranscriptionApi.Pipeline.Cleanup

/-!
One pass of `purge_expired_upload_sessions`, from its SELECT to its COMMIT.

The loop over the candidates goes on after a removal that raised `FileNotFoundError`
or `PermissionError` and ends with any other `OSError`. The UPDATE behind it names
every candidate, not the ones whose directory is gone. So the rows of a pass say
what is on disk only when every removal leaves nothing, or when the pass ends early
without an UPDATE and there was nothing left to do and nothing to mark.
-/

namespace TranscriptionApi.Pipeline

open Db Lib Python Uploads

/-- What a pass leaves: how it returned, the database and the upload directories. -/
structure SessionPass where
  answer : Except OsError ℕ
  db : Database
  dirs : Uuid → Option UploadDir

/-- The sessions the SELECT of a pass returns. -/
def candidates (now graceSeconds : ℤ) (db : Database) : List UploadSession :=
  expiredCandidates db (now - graceSeconds)

/-- `purge_expired_upload_sessions`; `rm i` is how the removal of the directory of
session `i` ends. -/
def purgeExpiredUploadSessions (rm : Uuid → RmOutcome) (now graceSeconds : ℤ) (db : Database)
    (dirs : Uuid → Option UploadDir) : SessionPass :=
  let rows := candidates now graceSeconds db
  let removed := purgeDirs rm rows dirs
  if removed.2 = false then ⟨.error .other, db, removed.1⟩
  else if rows.isEmpty then ⟨.ok 0, db, removed.1⟩
  else
    ⟨.ok rows.length, { db with uploadSessions := markExpired rows db.uploadSessions }, removed.1⟩

section Loop

variable (rm : Uuid → RmOutcome) (dirs : Uuid → Option UploadDir)

/-- The removal for the candidate `r` leaves the loop with its exception. -/
def raises (r : UploadSession) : Bool :=
  (dirs r.id).isSome && match rm r.id with
    | .failed .other _ => true
    | _ => false

/-- The candidates the loop comes to. -/
def reached : List UploadSession → List UploadSession
  | [] => []
  | r :: rows => r :: if raises rm dirs r then [] else reached rows

/-- The directory of `r` is gone once its own removal has ended. -/
def Removed (r : UploadSession) : Prop := rmtree (dirs r.id) (rm r.id) = none

variable {rm dirs}

theorem reached_of_forall {rows : List UploadSession} (h : ∀ r ∈ rows, raises rm dirs r = false) :
    reached rm dirs rows = rows := by
  induction rows with
  | nil => rfl
  | cons r rows ih =>
      rw [reached, h r List.mem_cons_self]
      exact congrArg (List.cons r) (ih fun r' hr' => h r' (List.mem_cons_of_mem r hr'))

/-- The loop ends with the first removal that raises. -/
theorem reached_of_raises {pre post : List UploadSession} {r : UploadSession}
    (hpre : ∀ r' ∈ pre, raises rm dirs r' = false) (hr : raises rm dirs r = true) :
    reached rm dirs (pre ++ r :: post) = pre ++ [r] := by
  induction pre with
  | nil => simp only [List.nil_append, reached, hr, if_true]
  | cons r' pre ih =>
      rw [List.cons_append, reached, hpre r' List.mem_cons_self]
      exact congrArg (List.cons r') (ih fun q hq => hpre q (List.mem_cons_of_mem r' hq))

theorem mem_of_mem_reached {rows : List UploadSession} {r : UploadSession}
    (h : r ∈ reached rm dirs rows) : r ∈ rows := by
  induction rows with
  | nil => exact h
  | cons r' rows ih =>
      rw [reached] at h
      split at h
      · exact List.mem_cons.mpr (.inl (List.mem_singleton.mp h))
      · exact List.mem_cons.mpr ((List.mem_cons.mp h).imp_right ih)

/-- Either no removal raises, or there is a first one that does. -/
theorem exists_raises (rm : Uuid → RmOutcome) (dirs : Uuid → Option UploadDir)
    (rows : List UploadSession) :
    (∀ r ∈ rows, raises rm dirs r = false) ∨
      ∃ pre r post, rows = pre ++ r :: post ∧ (∀ r' ∈ pre, raises rm dirs r' = false) ∧
        raises rm dirs r = true := by
  induction rows with
  | nil => exact .inl fun r hr => absurd hr List.not_mem_nil
  | cons r rows ih =>
      by_cases hr : raises rm dirs r = true
      · exact .inr ⟨[], r, rows, rfl, fun r' hr' => absurd hr' List.not_mem_nil, hr⟩
      · rw [Bool.not_eq_true] at hr
        rcases ih with hall | ⟨pre, r', post, rfl, hpre, hr'⟩
        · exact .inl (List.forall_mem_cons.mpr ⟨hr, hall⟩)
        · exact .inr ⟨r :: pre, r', post, rfl, List.forall_mem_cons.mpr ⟨hr, hpre⟩, hr'⟩

/-- One turn of the loop, as far as its own directory goes. -/
theorem purgeDirs_cons (r : UploadSession) (rows : List UploadSession)
    (dirs : Uuid → Option UploadDir) :
    purgeDirs rm (r :: rows) dirs =
      let removed := Function.update dirs r.id (rmtree (dirs r.id) (rm r.id))
      if raises rm dirs r then (removed, false) else purgeDirs rm rows removed := by
  rw [purgeDirs]
  split
  · rename_i hnone
    have hsame : Function.update dirs r.id (rmtree (dirs r.id) (rm r.id)) = dirs := by
      rw [Option.isNone_iff_eq_none.mp hnone, rmtree_none, Function.update_eq_self_iff]
      exact (Option.isNone_iff_eq_none.mp hnone).symm
    have hraises : raises rm dirs r = false := by
      rw [raises, Option.isNone_iff_eq_none.mp hnone]
      rfl
    simp only [hsame, hraises, Bool.false_eq_true, if_false]
  · rename_i hsome
    rw [Bool.not_eq_true, Option.isNone_eq_false_iff] at hsome
    rw [raises, hsome, Bool.true_and]
    rcases rm r.id with _ | ⟨_ | _ | _, left⟩ <;> rfl

/-- Other directories do not matter to whether a removal raises. -/
theorem raises_update {r r' : UploadSession} (h : r'.id ≠ r.id) (d : Option UploadDir) :
    raises rm (Function.update dirs r.id d) r' = raises rm dirs r' := by
  rw [raises, Function.update_of_ne h, raises]

theorem reached_update {r : UploadSession} {rows : List UploadSession}
    (h : ∀ r' ∈ rows, r'.id ≠ r.id) (d : Option UploadDir) :
    reached rm (Function.update dirs r.id d) rows = reached rm dirs rows := by
  induction rows with
  | nil => rfl
  | cons r' rows ih =>
      rw [reached, reached, raises_update (h r' List.mem_cons_self),
        ih fun q hq => h q (List.mem_cons_of_mem r' hq)]

/-- The candidates behind the first have other directories than it has. -/
theorem id_ne_of_nodup {r : UploadSession} {rows : List UploadSession}
    (hnodup : ((r :: rows).map UploadSession.id).Nodup) : ∀ r' ∈ rows, r'.id ≠ r.id := by
  intro r' hr' hid
  rw [List.map_cons, List.nodup_cons] at hnodup
  exact hnodup.1 (hid ▸ List.mem_map_of_mem hr')

/-- The loop comes to its end when no removal raises. -/
theorem purgeDirs_snd {rows : List UploadSession} (hnodup : (rows.map UploadSession.id).Nodup) :
    (purgeDirs rm rows dirs).2 = true ↔ ∀ r ∈ rows, raises rm dirs r = false := by
  induction rows generalizing dirs with
  | nil => simp [purgeDirs]
  | cons r rows ih =>
      have hne := id_ne_of_nodup hnodup
      rw [purgeDirs_cons, List.forall_mem_cons]
      split
      · rename_i hr
        simp [hr]
      · rename_i hr
        rw [Bool.not_eq_true] at hr
        rw [ih (List.nodup_cons.mp hnodup).2, hr]
        simp only [true_and]
        exact forall₂_congr fun r' hr' => by rw [raises_update (hne r' hr')]

/-- A candidate the loop comes to has the directory its own removal leaves. -/
theorem purgeDirs_of_mem_reached {rows : List UploadSession}
    (hnodup : (rows.map UploadSession.id).Nodup) {r : UploadSession}
    (hr : r ∈ reached rm dirs rows) :
    (purgeDirs rm rows dirs).1 r.id = rmtree (dirs r.id) (rm r.id) := by
  induction rows generalizing dirs with
  | nil => exact absurd hr List.not_mem_nil
  | cons r₀ rows ih =>
      have hne := id_ne_of_nodup hnodup
      have hown : (purgeDirs rm (r₀ :: rows) dirs).1 r₀.id = rmtree (dirs r₀.id) (rm r₀.id) := by
        rw [purgeDirs_cons]
        split
        · exact Function.update_self ..
        · rw [purgeDirs_of_notMem hne]
          exact Function.update_self ..
      rw [reached] at hr
      rcases List.mem_cons.mp hr with rfl | hr
      · exact hown
      · split at hr
        · exact absurd hr List.not_mem_nil
        · rename_i hraises
          have hid := hne r (mem_of_mem_reached hr)
          rw [purgeDirs_cons, if_neg hraises, ih (List.nodup_cons.mp hnodup).2
            (by rwa [reached_update hne]), Function.update_of_ne hid]

end Loop

section Pass

variable (rm : Uuid → RmOutcome) (now graceSeconds : ℤ) (db : Database)
  (dirs : Uuid → Option UploadDir)

/-- What a pass is for, about what it leaves: every candidate has had its turn, `expired`
are the candidates whose directory is gone, and the rows of the others, and all
the rows that were no candidates, are as they were. -/
structure PurgedExactly : Prop where
  processed : ∀ r ∈ candidates now graceSeconds db,
    r ∈ reached rm dirs (candidates now graceSeconds db) ∧
      (purgeExpiredUploadSessions rm now graceSeconds db dirs).dirs r.id =
        rmtree (dirs r.id) (rm r.id)
  marked : ∀ r ∈ candidates now graceSeconds db,
    (purgeExpiredUploadSessions rm now graceSeconds db dirs).db.status? r.id = some .expired ↔
      (purgeExpiredUploadSessions rm now graceSeconds db dirs).dirs r.id = none
  left : ∀ r ∈ candidates now graceSeconds db,
    (purgeExpiredUploadSessions rm now graceSeconds db dirs).dirs r.id ≠ none →
      (purgeExpiredUploadSessions rm now graceSeconds db dirs).db.uploadSessions.find? r.id = some r
  others : ∀ i, (∀ r ∈ candidates now graceSeconds db, r.id ≠ i) →
    (purgeExpiredUploadSessions rm now graceSeconds db dirs).db.uploadSessions.find? i =
      db.uploadSessions.find? i

/-- Every removal leaves nothing, and none of them ends the pass. -/
def AllRemoved : Prop :=
  ∀ r ∈ candidates now graceSeconds db, raises rm dirs r = false ∧ Removed rm dirs r

/-- The removal of the last candidate ends the pass, and no directory is gone. -/
def LastRaises : Prop :=
  ∃ init last, candidates now graceSeconds db = init ++ [last] ∧ raises rm dirs last = true ∧
    (∀ r ∈ init, raises rm dirs r = false) ∧
    ∀ r ∈ candidates now graceSeconds db, ¬Removed rm dirs r

variable {rm now graceSeconds db dirs}

theorem nodup_candidates : ((candidates now graceSeconds db).map UploadSession.id).Nodup :=
  db.uploadSessions.keys_nodup.sublist (List.filter_sublist.map _)

theorem find?_candidate {r : UploadSession} (hr : r ∈ candidates now graceSeconds db) :
    db.uploadSessions.find? r.id = some r :=
  Table.find?_of_mem (mem_expiredCandidates.mp hr).1

/-- A candidate is not `expired` before the pass. -/
theorem status?_candidate {r : UploadSession} (hr : r ∈ candidates now graceSeconds db) :
    db.status? r.id ≠ some .expired := by
  intro hexpired
  obtain ⟨r', hr', hstatus⟩ := Database.status?_eq_some_iff.mp hexpired
  rw [find?_candidate hr, Option.some.injEq] at hr'
  rcases (mem_expiredCandidates.mp hr).2.1 with h | h
  · rw [← hr', h] at hstatus
    cases hstatus
  · rw [← hr', h] at hstatus
    cases hstatus

theorem purge_dirs : (purgeExpiredUploadSessions rm now graceSeconds db dirs).dirs =
    (purgeDirs rm (candidates now graceSeconds db) dirs).1 := by
  rw [purgeExpiredUploadSessions]
  split
  · rfl
  · split
    · rfl
    · rfl

/-- A pass that an exception has ended changes no row. -/
theorem purge_of_raises {r : UploadSession} (hr : r ∈ candidates now graceSeconds db)
    (hraises : raises rm dirs r = true) :
    (purgeExpiredUploadSessions rm now graceSeconds db dirs).db = db := by
  have hend : (purgeDirs rm (candidates now graceSeconds db) dirs).2 = false := by
    rw [← Bool.not_eq_true, purgeDirs_snd nodup_candidates]
    intro h
    rw [h r hr] at hraises
    cases hraises
  rw [purgeExpiredUploadSessions]
  simp only [hend, if_true]

theorem find?_markExpired (rows : List UploadSession)
    (t : Table UploadSession UploadSession.id) (i : Uuid) :
    (markExpired rows t).find? i = (t.find? i).map fun r =>
      if rows.any (fun c => c.id = r.id) then { r with status := .expired } else r := by
  rw [markExpired, Table.find?_update]

/-- Any other pass marks all its candidates and no other row. -/
theorem purge_find?_of_forall
    (hall : ∀ r ∈ candidates now graceSeconds db, raises rm dirs r = false) (i : Uuid) :
    (purgeExpiredUploadSessions rm now graceSeconds db dirs).db.uploadSessions.find? i =
      (db.uploadSessions.find? i).map fun r =>
        if (candidates now graceSeconds db).any (fun c => c.id = r.id) then
          { r with status := .expired } else r := by
  have hend : (purgeDirs rm (candidates now graceSeconds db) dirs).2 = true :=
    (purgeDirs_snd nodup_candidates).mpr hall
  rw [purgeExpiredUploadSessions]
  simp only [hend, Bool.true_eq_false, if_false]
  split
  · rename_i hempty
    simp only [List.isEmpty_iff.mp hempty, List.any_nil, Bool.false_eq_true, if_false,
      Option.map_id']
  · exact find?_markExpired ..

theorem purge_find?_of_ne (i : Uuid) (hi : ∀ r ∈ candidates now graceSeconds db, r.id ≠ i) :
    (purgeExpiredUploadSessions rm now graceSeconds db dirs).db.uploadSessions.find? i =
      db.uploadSessions.find? i := by
  rcases exists_raises rm dirs (candidates now graceSeconds db) with
    hall | ⟨init, r, rest, hrows, -, hraises⟩
  · rw [purge_find?_of_forall hall]
    cases hfind : db.uploadSessions.find? i with
    | none => rfl
    | some r =>
        have hid : r.id = i := Table.key_of_find? hfind
        have hnone : ((candidates now graceSeconds db).any fun c => c.id = r.id) = false := by
          rw [List.any_eq_false]
          intro c hc
          simpa [hid] using hi c hc
        simp only [Option.map_some, hnone, Bool.false_eq_true, if_false]
  · rw [purge_of_raises (hrows ▸ List.mem_append_right _ List.mem_cons_self) hraises]

theorem status?_of_forall (hall : ∀ r ∈ candidates now graceSeconds db, raises rm dirs r = false)
    {r : UploadSession} (hr : r ∈ candidates now graceSeconds db) :
    (purgeExpiredUploadSessions rm now graceSeconds db dirs).db.status? r.id = some .expired := by
  have hany : ((candidates now graceSeconds db).any fun c => c.id = r.id) = true :=
    List.any_eq_true.mpr ⟨r, hr, decide_eq_true rfl⟩
  rw [Database.status?, purge_find?_of_forall hall, find?_candidate hr]
  simp only [Option.map_some, hany, if_true]

/-- Where the loop comes to every candidate, each has the directory its removal leaves. -/
theorem purge_dirs_of_mem {r : UploadSession}
    (hr : r ∈ reached rm dirs (candidates now graceSeconds db)) :
    (purgeExpiredUploadSessions rm now graceSeconds db dirs).dirs r.id =
      rmtree (dirs r.id) (rm r.id) := by
  rw [purge_dirs, purgeDirs_of_mem_reached nodup_candidates hr]

theorem purgedExactly_of_allRemoved (h : AllRemoved rm now graceSeconds db dirs) :
    PurgedExactly rm now graceSeconds db dirs := by
  have hall := fun r hr => (h r hr).1
  have hreached := reached_of_forall hall
  have hgone : ∀ r ∈ candidates now graceSeconds db,
      (purgeExpiredUploadSessions rm now graceSeconds db dirs).dirs r.id = none := by
    intro r hr
    rw [purge_dirs_of_mem (by rwa [hreached])]
    exact (h r hr).2
  exact
    { processed := fun r hr => ⟨by rwa [hreached], purge_dirs_of_mem (by rwa [hreached])⟩
      marked := fun r hr => iff_of_true (status?_of_forall hall hr) (hgone r hr)
      left := fun r hr hleft => absurd (hgone r hr) hleft
      others := purge_find?_of_ne }

theorem purgedExactly_of_lastRaises (h : LastRaises rm now graceSeconds db dirs) :
    PurgedExactly rm now graceSeconds db dirs := by
  obtain ⟨init, last, hrows, hraises, hinit, hleft⟩ := h
  have hdb := purge_of_raises (hrows ▸ List.mem_append_right _ List.mem_cons_self) hraises
  have hreached : reached rm dirs (candidates now graceSeconds db) =
      candidates now graceSeconds db := by
    rw [hrows]
    exact reached_of_raises hinit hraises
  have hdirs : ∀ r ∈ candidates now graceSeconds db,
      (purgeExpiredUploadSessions rm now graceSeconds db dirs).dirs r.id =
        rmtree (dirs r.id) (rm r.id) := fun r hr => purge_dirs_of_mem (by rwa [hreached])
  exact
    { processed := fun r hr => ⟨by rwa [hreached], hdirs r hr⟩
      marked := fun r hr => by
        rw [hdb, hdirs r hr]
        exact iff_of_false (status?_candidate hr) (hleft r hr)
      left := fun r hr _ => by rw [hdb, find?_candidate hr]
      others := purge_find?_of_ne }

/-- An ended pass that is exact had no candidate left and none to mark. -/
theorem lastRaises_of_purgedExactly (h : PurgedExactly rm now graceSeconds db dirs)
    {init rest : List UploadSession} {r : UploadSession}
    (hrows : candidates now graceSeconds db = init ++ r :: rest)
    (hinit : ∀ r' ∈ init, raises rm dirs r' = false) (hraises : raises rm dirs r = true) :
    LastRaises rm now graceSeconds db dirs := by
  have hreached : reached rm dirs (candidates now graceSeconds db) = init ++ [r] := by
    rw [hrows]
    exact reached_of_raises hinit hraises
  have hdb := purge_of_raises (hrows ▸ List.mem_append_right _ List.mem_cons_self) hraises
  have hrest : rest = [] := by
    rw [List.eq_nil_iff_forall_not_mem]
    intro r' hr'
    have hcandidate : r' ∈ candidates now graceSeconds db :=
      hrows ▸ List.mem_append_right _ (List.mem_cons_of_mem r hr')
    have hmem := (h.processed r' hcandidate).1
    have hnodup := nodup_candidates.of_map (l := candidates now graceSeconds db)
    rw [hrows, List.append_cons, List.nodup_append] at hnodup
    rw [hreached] at hmem
    exact hnodup.2.2 r' hmem r' hr' rfl
  subst hrest
  refine ⟨init, r, hrows, hraises, hinit, fun c hc hremoved => ?_⟩
  have hdir := (h.processed c hc).2
  rw [Removed] at hremoved
  rw [hremoved] at hdir
  have hmarked := (h.marked c hc).mpr hdir
  rw [hdb] at hmarked
  exact status?_candidate hc hmarked

/-- A pass marks exactly the candidates whose directory is gone, and leaves none out, exactly
when every removal leaves nothing, or the last one ends the pass and all of them leave
the directory. -/
theorem purgeExpiredUploadSessions_exact_iff (rm : Uuid → RmOutcome) (now graceSeconds : ℤ)
    (db : Database) (dirs : Uuid → Option UploadDir) :
    PurgedExactly rm now graceSeconds db dirs ↔
      AllRemoved rm now graceSeconds db dirs ∨ LastRaises rm now graceSeconds db dirs := by
  refine ⟨fun h => ?_, fun h => h.elim purgedExactly_of_allRemoved purgedExactly_of_lastRaises⟩
  rcases exists_raises rm dirs (candidates now graceSeconds db) with
    hall | ⟨init, r, rest, hrows, hinit, hraises⟩
  · refine .inl fun r hr => ⟨hall r hr, ?_⟩
    have hgone := (h.marked r hr).mp (status?_of_forall hall hr)
    rwa [(h.processed r hr).2] at hgone
  · exact .inr (lastRaises_of_purgedExactly h hrows hinit hraises)

end Pass

/-- A session whose upload never came. -/
def abandoned : UploadSession where
  id := 7
  userId := 1
  bearerId := 2
  nonce := "n"
  uploadBearerHash := "h"
  kind := .audio
  transcriptionId := none
  expectedSizeBytes := 100
  expectedMimeType := none
  status := .requested
  expiresAt := 0
  createdAt := 0
  uploadedAt := none
  consumedAt := none

/-- `rmtree` may not remove the directory of the session, and its row is `expired`. -/
theorem not_forall_purgedExactly : ¬∀ (rm : Uuid → RmOutcome) (now graceSeconds : ℤ) (db : Database)
    (dirs : Uuid → Option UploadDir), PurgedExactly rm now graceSeconds db dirs := by
  intro h
  let db : Database := { (default : Database) with uploadSessions := ⟨[abandoned], by decide⟩ }
  have hexact := h (fun _ => .failed .permission (some true)) 4000 3600 db fun _ => some ⟨none⟩
  have hmem : abandoned ∈ candidates 4000 3600 db := by decide
  have hgone := (hexact.marked abandoned hmem).mp (by decide)
  revert hgone
  decide

end TranscriptionApi.Pipeline
