import TranscriptionApi.Uploads.Status

/-!
How often an upload session takes effect.

The log counts the effects: an upload that is committed, one that is answered 200,
a row of `images`, a row of `transcriptions`. The columns `uploaded_at` and
`consumed_at` tell whether there has been one, because every COMMIT that adds an
effect sets its column and nothing clears it. An upload that is committed may still
lose its answer, so 200 is answered no more often than `uploaded_at` is written. No
handler looks at the columns; a session is used once exactly as long as each COMMIT
happens to find its column empty.
-/

namespace TranscriptionApi.Uploads

open Api Auth Db Lib Mcp Pipeline Python

/-- How many effects of a kind session `i` has had. -/
def World.uses (w : World) (i : Uuid) (k : Use) : ℕ := w.log.countP (Entry.uses i k)

/-- No session has had an effect of one kind twice. -/
def UsedOnce (w : World) : Prop := ∀ i k, w.uses i k ≤ 1

/-- The same, as far as the clients and the tables of images and transcriptions can
tell. -/
def AnsweredOnce (w : World) : Prop := ∀ i k, k ≠ .accepted → w.uses i k ≤ 1

/-- The column in which a write records its effect is empty. -/
def Write.Unused (r : UploadSession) : Write → Prop
  | .uploaded .. => r.uploadedAt = none
  | .imageUploaded .. => r.uploadedAt = none
  | .consumed .. => r.consumedAt = none
  | .expired _ => True

/-- A COMMIT about to happen finds the column it sets empty: `uploaded_at` for
an upload, `consumed_at` for a start. -/
def CommitsUnused (w : World) (e : Event) (_ : World) : Prop :=
  ∀ p wr, Commits w e p wr → ∀ i ∈ wr.ids, ∀ r, w.session? i = some r → wr.Unused r

/-- The columns tell which effects a session has had. -/
structure Counted (w : World) : Prop where
  absent : ∀ i k, w.session? i = none → w.uses i k = 0
  uploaded : ∀ i r, w.session? i = some r → (w.uses i .accepted = 0 ↔ r.uploadedAt = none)
  le_accepted : ∀ i k, k ≠ .transcription → w.uses i k ≤ w.uses i .accepted
  consumed : ∀ i r, w.session? i = some r → (w.uses i .transcription = 0 ↔ r.consumedAt = none)

/-- The effects a COMMIT adds. -/
def Write.adds (wr : Write) (a : Await) (i : Uuid) (k : Use) : ℕ :=
  (wr.entries a).countP (Entry.uses i k)

section

variable {sv : Service} {w w' : World} {e : Event} {a : Await} {i : Uuid}

/-- An upload that commits is accepted, on the session it rewrites. -/
theorem adds_accepted (wr : Write) (a : Await) (i : Uuid) :
    wr.adds a i .accepted = if wr.target = .uploaded ∧ i ∈ wr.ids then 1 else 0 := by
  have hanswer : (wr.answer a).uses i .accepted = false := by
    cases wr with
    | _ => cases a with
      | _ => rfl
  rw [Write.adds, Write.entries, List.countP_append, List.countP_singleton, hanswer]
  cases wr with
  | uploaded row at_ bytes =>
      by_cases h : row.id = i
      · simp [Write.effects, Write.target, Write.ids, Entry.uses, h]
      · simp [Write.effects, Write.target, Write.ids, Entry.uses, h, Ne.symm h]
  | imageUploaded row at_ img =>
      by_cases h : row.id = i
      · simp [Write.effects, Write.target, Write.ids, Entry.uses, h]
      · simp [Write.effects, Write.target, Write.ids, Entry.uses, h, Ne.symm h]
  | consumed row at_ tx r => simp [Write.effects, Write.target, Entry.uses]
  | expired rows => simp [Write.effects, Write.target]

/-- A start that commits inserts a transcription. -/
theorem adds_transcription (wr : Write) (a : Await) (i : Uuid) :
    wr.adds a i .transcription = if wr.target = .consumed ∧ i ∈ wr.ids then 1 else 0 := by
  have hanswer : (wr.answer a).uses i .transcription = false := by
    cases wr with
    | _ => cases a with
      | _ => rfl
  rw [Write.adds, Write.entries, List.countP_append, List.countP_singleton, hanswer]
  cases wr with
  | uploaded row at_ bytes => simp [Write.effects, Write.target, Entry.uses]
  | imageUploaded row at_ img => simp [Write.effects, Write.target, Entry.uses]
  | consumed row at_ tx r =>
      by_cases h : row.id = i
      · simp [Write.effects, Write.target, Write.ids, Entry.uses, h]
      · simp [Write.effects, Write.target, Write.ids, Entry.uses, h, Ne.symm h]
  | expired rows => simp [Write.effects, Write.target]

/-- An upload that is answered 200 has been accepted. -/
theorem adds_upload_le (wr : Write) (a : Await) (i : Uuid) :
    wr.adds a i .upload ≤ wr.adds a i .accepted := by
  have heffects : wr.effects.countP (Entry.uses i .upload) = 0 := by
    cases wr with
    | _ => rfl
  rw [adds_accepted, Write.adds, Write.entries, List.countP_append, heffects, Nat.zero_add]
  split
  · exact List.countP_le_length
  · rename_i hnot
    rw [List.countP_singleton, if_neg]
    intro huses
    apply hnot
    cases a with
    | ok =>
        cases wr with
        | uploaded row at_ bytes =>
            exact ⟨rfl, List.mem_singleton.mpr (of_decide_eq_true huses).symm⟩
        | imageUploaded row at_ img =>
            exact ⟨rfl, List.mem_singleton.mpr (of_decide_eq_true huses).symm⟩
        | _ => cases huses
    | _ => cases wr with
      | _ => cases huses

/-- The upload of an inserted image has been accepted. -/
theorem adds_image_le (wr : Write) (a : Await) (i : Uuid) :
    wr.adds a i .image ≤ wr.adds a i .accepted := by
  have hanswer : (wr.answer a).uses i .image = false := by
    cases wr with
    | _ => cases a with
      | _ => rfl
  rw [Write.adds, Write.adds, Write.entries, List.countP_append, List.countP_append,
    List.countP_singleton, hanswer]
  refine Nat.add_le_add ?_ (Nat.zero_le _)
  cases wr with
  | imageUploaded row at_ img =>
      by_cases h : row.id = i
      · simp [Write.effects, Entry.uses, h]
      · simp [Write.effects, Entry.uses, h]
  | _ => exact Nat.zero_le _

theorem adds_le_accepted (wr : Write) (a : Await) (i : Uuid) {k : Use} (hk : k ≠ .transcription) :
    wr.adds a i k ≤ wr.adds a i .accepted := by
  cases k with
  | accepted => exact Nat.le_refl _
  | upload => exact adds_upload_le wr a i
  | image => exact adds_image_le wr a i
  | transcription => exact absurd rfl hk

theorem uses_of_refusals {es : List Entry} (hlog : w'.log = w.log ++ es)
    (hes : ∀ x ∈ es, x.Refusal) (i : Uuid) (k : Use) : w'.uses i k = w.uses i k := by
  have hzero : es.countP (Entry.uses i k) = 0 := by
    rw [List.countP_eq_zero]
    intro x hx
    simp [(hes x hx).uses i k]
  rw [World.uses, hlog, List.countP_append, hzero, Nat.add_zero]
  rfl

theorem uses_of_commit (w : World) (wr : Write) (a : Await) (p : ℕ) (db : Database) (i : Uuid)
    (k : Use) : World.uses { (w.accept wr).finish p (wr.entries a) with db := db } i k =
      w.uses i k + wr.adds a i k := by
  show List.countP _ ((w.accept wr).log ++ wr.entries a) = _
  rw [accept_log, List.countP_append]
  rfl

/-- The COMMIT of a delete uses no session. -/
theorem uses_of_delete {del : Deletion} (hlog : w'.log = w.log ++ del.entries a) (i : Uuid)
    (k : Use) : w'.uses i k = w.uses i k := by
  have hzero : (del.entries a).countP (Entry.uses i k) = 0 := by
    cases a with
    | _ => cases k with
      | _ => rfl
  rw [World.uses, hlog, List.countP_append, hzero, Nat.add_zero]
  rfl

/-- A session a write is about is in the table. -/
theorem session?_of_mem_ids (hw : Sound sv w) {p : ℕ} {wr : Write}
    (hp : w.handlers p = some (.committing wr)) (hi : i ∈ wr.ids) :
    ∃ r, w.session? i = some r := by
  rw [Write.ids_eq] at hi
  obtain ⟨row, hrow, rfl⟩ := List.mem_map.mp hi
  obtain ⟨r, hr, -⟩ := hw.known p _ hp row hrow
  exact ⟨r, hr⟩

theorem counted_of_same (hc : Counted w) (hsession : ∀ i, w'.session? i = w.session? i)
    (huses : ∀ i k, w'.uses i k = w.uses i k) : Counted w' where
  absent := fun i k h => by
    rw [huses]
    exact hc.absent i k (hsession i ▸ h)
  uploaded := fun i r h => by
    rw [huses]
    exact hc.uploaded i r (hsession i ▸ h)
  le_accepted := fun i k hk => by
    rw [huses, huses]
    exact hc.le_accepted i k hk
  consumed := fun i r h => by
    rw [huses]
    exact hc.consumed i r (hsession i ▸ h)

theorem counted_of_requested (hc : Counted w) {row : UploadSession}
    (hfree : w.session? row.id = none) (huploaded : row.uploadedAt = none)
    (hconsumed : row.consumedAt = none)
    (hsession : ∀ i, w'.session? i = if row.id = i then some row else w.session? i)
    (huses : ∀ i k, w'.uses i k = w.uses i k) : Counted w' := by
  have hold {i : Uuid} {r : UploadSession} (h : w'.session? i = some r) :
      r = row ∧ w.session? i = none ∨ w.session? i = some r := by
    rw [hsession] at h
    split at h
    · rename_i hi
      exact .inl ⟨(Option.some.inj h).symm, hi ▸ hfree⟩
    · exact .inr h
  refine ⟨fun i k h => ?_, fun i r h => ?_, fun i k hk => ?_, fun i r h => ?_⟩
  · rw [huses]
    rw [hsession] at h
    split at h
    · cases h
    · exact hc.absent i k h
  · rw [huses]
    rcases hold h with ⟨rfl, hnone⟩ | hsome
    · simp [hc.absent i .accepted hnone, huploaded]
    · exact hc.uploaded i r hsome
  · rw [huses, huses]
    exact hc.le_accepted i k hk
  · rw [huses]
    rcases hold h with ⟨rfl, hnone⟩ | hsome
    · simp [hc.absent i .transcription hnone, hconsumed]
    · exact hc.consumed i r hsome

/-- A COMMIT adds effects to the sessions it rewrites only. -/
theorem adds_of_notMem {wr : Write} (hi : i ∉ wr.ids) (k : Use) : wr.adds a i k = 0 := by
  by_cases hk : k = .transcription
  · rw [hk, adds_transcription, if_neg fun h => hi h.2]
  · have hle := adds_le_accepted wr a i hk
    rw [adds_accepted, if_neg fun h => hi h.2] at hle
    exact Nat.le_zero.mp hle

theorem adds_le_one (wr : Write) (a : Await) (i : Uuid) (k : Use) : wr.adds a i k ≤ 1 := by
  by_cases hk : k = .transcription
  · rw [hk, adds_transcription]
    split <;> omega
  · have hle := adds_le_accepted wr a i hk
    rw [adds_accepted] at hle
    split at hle <;> omega

/-- A COMMIT that accepts an upload sets `uploaded_at`, and no other does. -/
theorem uploadedAt_set {wr : Write} (hi : i ∈ wr.ids) (r : UploadSession) :
    (wr.set r).uploadedAt = none ↔ wr.adds a i .accepted = 0 ∧ r.uploadedAt = none := by
  rw [adds_accepted]
  cases wr with
  | _ => simp [hi, Write.target, Write.set]

/-- A COMMIT that inserts a transcription sets `consumed_at`, and no other does. -/
theorem consumedAt_set {wr : Write} (hi : i ∈ wr.ids) (r : UploadSession) :
    (wr.set r).consumedAt = none ↔ wr.adds a i .transcription = 0 ∧ r.consumedAt = none := by
  rw [adds_transcription]
  cases wr with
  | _ => simp [hi, Write.target, Write.set]

theorem counted_of_committed (hw : Sound sv w) (hc : Counted w) {p : ℕ} {wr : Write}
    (hp : w.handlers p = some (.committing wr))
    (hsession : ∀ i, w'.session? i =
      (w.session? i).map fun r => if i ∈ wr.ids then wr.set r else r)
    (huses : ∀ i k, w'.uses i k = w.uses i k + wr.adds a i k) : Counted w' := by
  refine ⟨fun i k h => ?_, fun i r h => ?_, fun i k hk => ?_, fun i r h => ?_⟩
  · rw [hsession, Option.map_eq_none_iff] at h
    have hi : i ∉ wr.ids := by
      intro hi
      obtain ⟨r, hr⟩ := session?_of_mem_ids hw hp hi
      rw [h] at hr
      cases hr
    rw [huses, adds_of_notMem hi, hc.absent i k h]
  · rw [hsession] at h
    obtain ⟨r₀, hr₀, rfl⟩ := Option.map_eq_some_iff.mp h
    have hbefore := hc.uploaded i r₀ hr₀
    rw [huses]
    split
    · rename_i hi
      rw [uploadedAt_set (a := a) hi, ← hbefore]
      omega
    · rename_i hi
      rw [adds_of_notMem hi]
      exact hbefore
  · have hbefore := hc.le_accepted i k hk
    have hadds := adds_le_accepted wr a i hk
    rw [huses, huses]
    omega
  · rw [hsession] at h
    obtain ⟨r₀, hr₀, rfl⟩ := Option.map_eq_some_iff.mp h
    have hbefore := hc.consumed i r₀ hr₀
    rw [huses]
    split
    · rename_i hi
      rw [consumedAt_set (a := a) hi, ← hbefore]
      omega
    · rename_i hi
      rw [adds_of_notMem hi]
      exact hbefore

/-- The column a COMMIT sets is empty when there was none of its effects yet. -/
theorem unused_iff (hc : Counted w) {wr : Write} (hi : i ∈ wr.ids) {r : UploadSession}
    (hr : w.session? i = some r) :
    wr.Unused r ↔ ∀ k, wr.adds a i k = 1 → w.uses i k = 0 := by
  have huploaded := hc.uploaded i r hr
  have hconsumed := hc.consumed i r hr
  -- an upload may use the session in every way but one, and a start in that one
  have hupload (htarget : wr.target = .uploaded) :
      r.uploadedAt = none ↔ ∀ k, wr.adds a i k = 1 → w.uses i k = 0 := by
    rw [← huploaded]
    refine ⟨fun hzero k hk => ?_, fun h => h .accepted ?_⟩
    · have hne : k ≠ .transcription := by
        rintro rfl
        rw [adds_transcription, htarget] at hk
        cases hk
      have hle := hc.le_accepted i k hne
      omega
    · rw [adds_accepted, if_pos ⟨htarget, hi⟩]
  have hothers (htarget : wr.target ≠ .uploaded) {k : Use} (hk : wr.adds a i k = 1) :
      k = .transcription := by
    by_contra hne
    have hle := adds_le_accepted wr a i hne
    rw [hk, adds_accepted, if_neg fun h => htarget h.1] at hle
    cases hle
  cases wr with
  | uploaded row at_ bytes => exact hupload rfl
  | imageUploaded row at_ img => exact hupload rfl
  | consumed row at_ tx result =>
      rw [Write.Unused, ← hconsumed]
      refine ⟨fun hzero k hk => ?_, fun h => h .transcription ?_⟩
      · rw [hothers (by simp [Write.target]) hk]
        exact hzero
      · rw [adds_transcription, if_pos ⟨rfl, hi⟩]
  | expired rows =>
      refine iff_of_true trivial fun k hk => ?_
      rw [hothers (by simp [Write.target]) hk, adds_transcription] at hk
      cases hk

/-- A COMMIT uses no session twice exactly when it finds its column empty. -/
theorem usedOnce_of_commit (hw : Sound sv w) (hc : Counted w) (honce : UsedOnce w) {p : ℕ}
    {wr : Write} (hp : w.handlers p = some (.committing wr))
    (huses : ∀ i k, w'.uses i k = w.uses i k + wr.adds a i k) :
    UsedOnce w' ↔ ∀ i ∈ wr.ids, ∀ r, w.session? i = some r → wr.Unused r := by
  constructor
  · intro h i hi r hr
    rw [unused_iff (a := a) hc hi hr]
    intro k hk
    have hle := h i k
    rw [huses] at hle
    omega
  · intro h i k
    have hbefore := honce i k
    have hadds := adds_le_one wr a i k
    rw [huses]
    by_cases hi : i ∈ wr.ids
    · obtain ⟨r, hr⟩ := session?_of_mem_ids hw hp hi
      have hzero := (unused_iff (a := a) hc hi hr).mp (h i hi r hr) k
      omega
    · rw [adds_of_notMem hi]
      exact hbefore

/-- A step that commits no write uses no session. -/
theorem uses_of_not_committing (hm : Moves sv w e w') (hno : ∀ p wr, ¬ Commits w e p wr) (i : Uuid)
    (k : Use) : w'.uses i k = w.uses i k := by
  cases hm.log with
  | refused es hlog hes => exact uses_of_refusals hlog hes i k
  | committed p a wr hc hdb hlog => exact absurd hc (hno p wr)
  | deleted p a del found hc hdb hlog => exact uses_of_delete hlog i k

theorem counted_step (hw : Sound sv w) (hc : Counted w)
    (h : (service sv).step w e = some w') : Counted w' := by
  have hmoves := step_moves h
  rcases commit_cases h with ⟨p, a, wr, db, hcommit, hdb, rfl⟩ | hno
  · exact counted_of_committed hw hc hcommit.handler (Write.find?_apply hdb)
      (uses_of_commit w wr a p db)
  · have huses := uses_of_not_committing hmoves hno
    cases hmoves.sessions with
    | same h =>
        refine counted_of_same hc (fun i => ?_) huses
        rw [World.session?, h]
        rfl
    | requested row hfree hnonce hstatus huploaded hconsumed hbound h =>
        exact counted_of_requested hc hfree huploaded hconsumed h huses
    | committed p wr hcommit h => exact absurd hcommit (hno p wr)

theorem usedOnce_iff_step (hw : Sound sv w) (hc : Counted w) (honce : UsedOnce w)
    (h : (service sv).step w e = some w') : UsedOnce w' ↔ CommitsUnused w e w' := by
  rcases commit_cases h with ⟨p, a, wr, db, hcommit, hdb, rfl⟩ | hno
  · rw [usedOnce_of_commit hw hc honce hcommit.handler (uses_of_commit w wr a p db),
      CommitsUnused]
    symm
    exact hcommit.forall_iff
  · refine ⟨fun _ p wr hcommit => absurd hcommit (hno p wr), fun _ i k => ?_⟩
    rw [uses_of_not_committing (step_moves h) hno]
    exact honce i k

/-- An upload that hears of its COMMIT is answered 200. -/
theorem adds_upload_ok (wr : Write) (i : Uuid) :
    wr.adds .ok i .upload = wr.adds .ok i .accepted := by
  cases wr with
  | _ => rfl

theorem upload_eq_accepted_step (hw : ∀ i, w.uses i .upload = w.uses i .accepted)
    (hheard : ∀ p rm, e ≠ .resume p .lost rm) (h : (service sv).step w e = some w') :
    ∀ i, w'.uses i .upload = w'.uses i .accepted := by
  intro i
  by_cases hcommit : ∃ p wr, Commits w e p wr
  · obtain ⟨p, wr, ⟨a, rm, rfl, ha⟩, hp⟩ := hcommit
    obtain ⟨db, hdb, rfl⟩ := step_committing hp ha h
    rw [uses_of_commit, uses_of_commit, hw]
    cases a with
    | ok => rw [adds_upload_ok]
    | lost => exact absurd rfl (hheard p rm)
    | _ => cases ha
  · have hno : ∀ p wr, ¬ Commits w e p wr := fun p wr hc => hcommit ⟨p, wr, hc⟩
    rw [uses_of_not_committing (step_moves h) hno, uses_of_not_committing (step_moves h) hno, hw]

end

theorem uses_initial {w : World} (hw : Initial w) (i : Uuid) (k : Use) : w.uses i k = 0 := by
  rw [World.uses, hw.log]
  rfl

theorem counted_initial {w : World} (hw : Initial w) : Counted w where
  absent := fun i k _ => uses_initial hw i k
  uploaded := fun i r h => by simp [session?_initial hw] at h
  le_accepted := fun i k _ => by rw [uses_initial hw, uses_initial hw]
  consumed := fun i r h => by simp [session?_initial hw] at h

theorem usedOnce_iff_commits (sv : Service) {w : World} (hw : Initial w) (es : List Event) :
    (service sv).Along (fun _ _ w' => UsedOnce w') w es ↔
      (service sv).Along CommitsUnused w es := by
  refine (service sv).along_iff (I := fun w => Sound sv w ∧ Counted w ∧ UsedOnce w)
    (fun w e w' hs hstep honce => ?_) (fun w e w' hs hstep => ?_) ⟨sound_initial hw, ?_, ?_⟩
  · exact ⟨sound_step hs.1 hstep, counted_step hs.1 hs.2.1 hstep, honce⟩
  · exact usedOnce_iff_step hs.1 hs.2.1 hs.2.2 hstep
  · exact counted_initial hw
  · intro i k
    rw [uses_initial hw]
    exact Nat.zero_le 1

/-- Where every upload hears of its COMMIT, the answers tell the effects. -/
theorem answeredOnce_iff_usedOnce {sv : Service} {w : World} (hw : Initial w) {es : List Event}
    (hheard : ∀ e ∈ es, ∀ p rm, e ≠ .resume p .lost rm) :
    (service sv).Along (fun _ _ w' => AnsweredOnce w') w es ↔
      (service sv).Along (fun _ _ w' => UsedOnce w') w es := by
  refine (service sv).along_iff_of_along (C := fun _ e => ∀ p rm, e ≠ .resume p .lost rm)
    (I := fun w => ∀ i, w.uses i .upload = w.uses i .accepted)
    (fun w e w' hI hC hstep _ => upload_eq_accepted_step hI hC hstep)
    (fun w e w' hI hC hstep => ?_) (fun i => by rw [uses_initial hw, uses_initial hw])
    ((service sv).along_of_forall hheard)
  constructor
  · intro honce i k
    by_cases hk : k = .accepted
    · rw [hk, ← upload_eq_accepted_step hI hC hstep]
      exact honce i .upload (by simp)
    · exact honce i k hk
  · exact fun honce i k _ => honce i k

/-- Over every interleaving, no session takes effect twice, exactly when every
COMMIT finds the column of its effect empty. As long as no COMMIT loses its answer,
that is also when no session has two uploads answered 200, two images or two
transcriptions. -/
theorem usedOnce_iff (sv : Service) {w : World} (hw : Initial w) (es : List Event) :
    ((service sv).Along (fun _ _ w' => UsedOnce w') w es ↔
      (service sv).Along CommitsUnused w es) ∧
    ((∀ e ∈ es, ∀ p rm, e ≠ .resume p .lost rm) →
      ((service sv).Along (fun _ _ w' => AnsweredOnce w') w es ↔
        (service sv).Along CommitsUnused w es)) :=
  ⟨usedOnce_iff_commits sv hw es, fun hheard =>
    (answeredOnce_iff_usedOnce hw hheard).trans (usedOnce_iff_commits sv hw es)⟩

/-- Two requests upload to one session and both are answered 200. -/
def doubleUpload : List Event :=
  [requestAudio, .uploadAudio 0 uploadRequest, .uploadAudio 1 uploadRequest] ++
    finishUpload 0 [1, 2, 3, 4] ++ finishUpload 1 [5, 6, 7, 8]

theorem usedOnce_iff_doubleUpload :
    (service plainService).Along (fun _ _ w' => AnsweredOnce w') emptyWorld doubleUpload ↔
      (service plainService).Along CommitsUnused emptyWorld doubleUpload :=
  (usedOnce_iff plainService initial_emptyWorld doubleUpload).2
    (by simp [doubleUpload, finishUpload, requestAudio, go])

theorem usedOnce_fails :
    ∃ (sv : Service) (w w' : World) (es : List Event),
      Initial w ∧ (service sv).run w es = some w' ∧ ¬ AnsweredOnce w' := by
  have huses : (((service plainService).run emptyWorld doubleUpload).map
      fun w => w.uses 7 .upload) = some 2 := by decide +kernel
  obtain ⟨w', hw', hcount⟩ := Option.map_eq_some_iff.mp huses
  refine ⟨plainService, emptyWorld, w', doubleUpload, initial_emptyWorld, hw', fun h => ?_⟩
  have hle := h 7 .upload (by decide)
  omega

end TranscriptionApi.Uploads
