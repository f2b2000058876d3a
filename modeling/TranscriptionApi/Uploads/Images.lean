import TranscriptionApi.Uploads.Content

/-!
Images and the transcription they belong to.

`delete_transcription` deletes the images it can see, in the same transaction as
the transcription. An image that is on its way then is not among them: its
session was bound to the transcription when the URL was requested, and
`upload_image` inserts the row without looking at the transcription again. Two
orders let it slip through: it is committed when the delete has been, or between
the second UPDATE of the delete and its COMMIT. Away from these no deleted
transcription has a visible image.
-/

namespace TranscriptionApi.Uploads

open Api Auth Db Lib Mcp Pipeline Python

/-- The transcription is there and not deleted. -/
def Live (db : Database) (tid : Uuid) : Prop :=
  ∃ tx, db.transcriptions.find? tid = some tx ∧ tx.deletedAt = none

/-- A deleted transcription has no visible images. -/
def ChildrenLive (db : Database) : Prop :=
  ∀ img ∈ db.images.rows, img.deletedAt = none → Live db img.transcriptionId

/-- No image of a deleted transcription is served. -/
def ServesLive (db : Database) : Prop :=
  ∀ files v text imageId bytes tid, uuid text = some tid →
    (imageResource files v text imageId db).1 = .ok bytes → Live db tid

structure ImagesHidden (db : Database) : Prop where
  children : ChildrenLive db
  served : ServesLive db

/-- An image about to be committed finds its transcription not deleted. -/
def AttachesLive (w : World) (e : Event) : Prop :=
  ∀ p row at_ img, Commits w e p (.imageUploaded row at_ img) → Live w.db img.transcriptionId

/-- A delete about to be committed has found every image that is visible by
then. -/
def DeletesVisible (w : World) (e : Event) : Prop :=
  ∀ p del found, CommitsDelete w e p del found → ∀ img ∈ w.db.images.rows,
    img.deletedAt = none → img.transcriptionId = del.tid → img.id ∈ found

structure CommitsHidden (w : World) (e : Event) : Prop where
  attaches : AttachesLive w e
  deletes : DeletesVisible w e

/-- What the resource serves is a visible image. -/
theorem servesLive_of_children {db : Database} (h : ChildrenLive db) : ServesLive db := by
  intro files v text imageId bytes tid htid hserved
  simp only [imageResource, htid] at hserved
  cases hiid : uuid imageId with
  | none => simp [hiid] at hserved
  | some iid =>
      simp only [hiid, mcpRequestSession] at hserved
      cases hrows : scopedSelect db.images Image.userId v
          fun r => r.id = iid && r.transcriptionId = tid && r.deletedAt.isNone with
      | nil => simp [hrows] at hserved
      | cons img rest =>
          have hmem := mem_scopedSelect.mp (hrows ▸ List.mem_cons_self)
          simp only [Bool.and_eq_true, decide_eq_true_eq, Option.isNone_iff_eq_none] at hmem
          obtain ⟨hstored, ⟨⟨-, hparent⟩, hvisible⟩, -⟩ := hmem
          have hlive := h img hstored hvisible
          rwa [hparent] at hlive

section

variable {sv : Service} {w w' : World} {e : Event}

/-- A delete hides the images of its transcription that it has found. -/
theorem childrenLive_deleted_iff {del : Deletion} {found : List Uuid} {db : Database}
    (hc : ChildrenLive db) : ChildrenLive (del.apply found db) ↔
      ∀ img ∈ db.images.rows, img.deletedAt = none → img.transcriptionId = del.tid →
        img.id ∈ found := by
  constructor
  · intro hafter img himg hvisible hparent
    by_contra hmissed
    obtain ⟨tx, htx, hlive⟩ := hafter img
      (mem_deleted_images.mpr ⟨img, himg, (if_neg hmissed).symm⟩) hvisible
    rw [hparent, find?_deleted, Option.map_eq_some_iff] at htx
    obtain ⟨tx₀, htx₀, rfl⟩ := htx
    rw [if_pos (Table.key_of_find? htx₀)] at hlive
    cases hlive
  · intro hall img' himg' hvisible
    obtain ⟨img, himg, rfl⟩ := mem_deleted_images.mp himg'
    split at hvisible
    · cases hvisible
    · rename_i hmissed
      rw [if_neg hmissed]
      obtain ⟨tx, htx, hlive⟩ := hc img himg hvisible
      refine ⟨tx, ?_, hlive⟩
      rw [find?_deleted, htx, Option.map_some, if_neg]
      intro hid
      exact hmissed (hall img himg hvisible ((Table.key_of_find? htx).symm.trans hid))

/-- An image that is inserted is visible, so its transcription decides. -/
theorem childrenLive_attached_iff {db db' : Database} {img : Image}
    (hdeleted : img.deletedAt = none) (hc : ChildrenLive db)
    (ht : db'.transcriptions = db.transcriptions) (hi : db.images.insert? img = some db'.images) :
    ChildrenLive db' ↔ Live db img.transcriptionId := by
  have hrows := (Table.insert?_eq_some hi).1
  have hlive (tid : Uuid) : Live db' tid ↔ Live db tid := by rw [Live, Live, ht]
  constructor
  · intro hafter
    exact (hlive _).mp (hafter img (by simp [hrows]) hdeleted)
  · intro hparent img' himg' hvisible
    rw [hlive]
    rw [hrows, List.mem_append, List.mem_singleton] at himg'
    rcases himg' with himg' | rfl
    · exact hc img' himg' hvisible
    · exact hparent

theorem childrenLive_iff_step (hw : Sound sv w) (hc : ChildrenLive w.db)
    (h : (service sv).step w e = some w') : ChildrenLive w'.db ↔ CommitsHidden w e := by
  by_cases hattach : ∃ p row at_ img, Commits w e p (.imageUploaded row at_ img)
  · obtain ⟨p, row, at_, img, hcommit⟩ := hattach
    have hvisible : img.deletedAt = none := (hw.facts p _ hcommit.handler).2.1
    have hafter : ChildrenLive w'.db ↔ Live w.db img.transcriptionId := by
      obtain ⟨⟨a, rm, rfl, ha⟩, hp⟩ := hcommit
      obtain ⟨db, hdb, rfl⟩ := step_committing hp ha h
      obtain ⟨t, ht, rfl⟩ := Option.map_eq_some_iff.mp hdb
      exact childrenLive_attached_iff hvisible hc rfl ht
    rw [hafter]
    refine ⟨fun hlive => ⟨fun q row' at' img' hq => ?_, fun q del found hq => ?_⟩, fun hhidden =>
      hhidden.attaches p row at_ img hcommit⟩
    · cases (hcommit.unique hq).2
      exact hlive
    · exact absurd hq hcommit.not_delete
  · have hnone : AttachesLive w e := fun p row at_ img hcommit =>
      absurd ⟨p, row, at_, img, hcommit⟩ hattach
    by_cases hdelete : ∃ p del found, CommitsDelete w e p del found
    · obtain ⟨p, del, found, hcommit⟩ := hdelete
      rw [(hcommit.effect h).1, childrenLive_deleted_iff hc]
      refine ⟨fun hall => ⟨hnone, fun q del' found' hq => ?_⟩, fun hhidden =>
        hhidden.deletes p del found hcommit⟩
      obtain ⟨rfl, rfl⟩ := hcommit.unique hq
      exact hall
    · refine iff_of_true ?_ ⟨hnone, fun p del found hcommit =>
        absurd ⟨p, del, found, hcommit⟩ hdelete⟩
      cases (step_moves h).content with
      | same ht hi =>
          intro img himg hvisible
          show Live w'.db _
          rw [Live, ht]
          exact hc img (hi ▸ himg) hvisible
      | deleted p del found hcommit ht hi => exact absurd ⟨p, del, found, hcommit⟩ hdelete
      | inserted tx ht hi =>
          intro img himg hvisible
          obtain ⟨parent, hparent, hlive⟩ := hc img (hi ▸ himg) hvisible
          refine ⟨parent, ?_, hlive⟩
          have hne : tx.id ≠ img.transcriptionId := by
            intro heq
            rw [← heq, (Table.insert?_eq_some ht).2] at hparent
            cases hparent
          rw [Table.find?_insert? ht, if_neg hne, hparent]
      | attached p row at_ img hcommit ht hi => exact absurd ⟨p, row, at_, img, hcommit⟩ hattach

theorem imagesHidden_iff_children {db : Database} : ImagesHidden db ↔ ChildrenLive db :=
  ⟨fun h => h.children, fun h => ⟨h, servesLive_of_children h⟩⟩

end

theorem imagesHidden_iff_commits (sv : Service) {w : World} (hw : Initial w)
    (hh : ImagesHidden w.db) (es : List Event) :
    (service sv).Along (fun _ _ w' => ImagesHidden w'.db) w es ↔
      (service sv).Along (fun w e _ => CommitsHidden w e) w es := by
  refine (service sv).along_iff (I := fun w => Sound sv w ∧ ChildrenLive w.db)
    (fun w e w' hs hstep hkept => ⟨sound_step hs.1 hstep, hkept.children⟩)
    (fun w e w' hs hstep => ?_) ⟨sound_initial hw, hh.children⟩
  rw [imagesHidden_iff_children]
  exact childrenLive_iff_step hs.1 hs.2 hstep

/-! ### Deletes that no image comes into -/

/-- An image belongs to the owner of its transcription. -/
def ImagesOwned (db : Database) : Prop :=
  ∀ img ∈ db.images.rows, Owned db img.transcriptionId img.userId

/-- An upload session is bound to a transcription of its user. -/
def SessionsBound (w : World) : Prop :=
  ∀ i r tid, w.session? i = some r → r.transcriptionId = some tid → Owned w.db tid r.userId

/-- What a delete about to be committed has not found is not visible. -/
def FoundVisible (w : World) : Prop :=
  ∀ p del found, w.handlers p = some (.deleted del found) → ∀ img ∈ w.db.images.rows,
    img.deletedAt = none → img.transcriptionId = del.tid → img.id ∈ found

/-- No image is committed to a transcription between the second UPDATE of its
delete and the COMMIT. -/
def AttachesApart (w : World) (e : Event) : Prop :=
  ∀ p row at_ img, Commits w e p (.imageUploaded row at_ img) →
    ∀ q del found, w.handlers q = some (.deleted del found) → img.transcriptionId ≠ del.tid

section

variable {sv : Service} {w w' : World} {e : Event}

theorem sessionsBound_step (hb : SessionsBound w) (hm : Moves sv w e w') : SessionsBound w' := by
  intro i r' tid hr' htid
  apply hm.content.owned
  cases hm.sessions with
  | same h =>
      rw [World.session?, h] at hr'
      exact hb i r' tid hr' htid
  | requested row hfree hnonce hstatus huploaded hconsumed hbound h =>
      rw [h] at hr'
      split at hr'
      · obtain rfl := Option.some.inj hr'
        exact hbound tid htid
      · exact hb i r' tid hr' htid
  | committed p wr hc h =>
      rw [h] at hr'
      obtain ⟨r, hr, rfl⟩ := Option.map_eq_some_iff.mp hr'
      have hlead : LeadsTo r (if i ∈ wr.ids then wr.set r else r) := by
        split
        · exact wr.leadsTo_set r
        · exact .refl r
      rw [hlead.transcriptionId] at htid
      rw [hlead.userId]
      exact hb i r tid hr htid

/-- The image on its way belongs to the owner of its transcription. -/
theorem owned_of_committing (hw : Sound sv w) (hb : SessionsBound w) {p : ℕ}
    {row : UploadSession} {at_ : ℤ} {img : Image}
    (hp : w.handlers p = some (.committing (.imageUploaded row at_ img))) :
    Owned w.db img.transcriptionId img.userId := by
  obtain ⟨-, -, hbound, huser⟩ := hw.facts p _ hp
  obtain ⟨r, hr, hlead⟩ := hw.known p _ hp row List.mem_cons_self
  rw [huser, ← hlead.userId]
  exact hb _ r _ hr (hlead.transcriptionId.trans hbound)

theorem imagesOwned_step (hw : Sound sv w) (hb : SessionsBound w) (ho : ImagesOwned w.db)
    (hm : Moves sv w e w') : ImagesOwned w'.db := by
  intro img' himg'
  apply hm.content.owned
  cases hm.content with
  | same ht hi => exact ho img' (hi ▸ himg')
  | deleted p del found hc ht hi =>
      rw [hi] at himg'
      obtain ⟨img, himg, rfl⟩ := mem_deleted_images.mp himg'
      -- a delete changes neither the parent nor the owner of an image
      split
      · exact ho img himg
      · exact ho img himg
  | inserted tx ht hi => exact ho img' (hi ▸ himg')
  | attached p row at_ img hc ht hi =>
      rw [(Table.insert?_eq_some hi).1, List.mem_append, List.mem_singleton] at himg'
      rcases himg' with himg' | rfl
      · exact ho img' himg'
      · exact owned_of_committing hw hb hc.handler

/-- The images of a transcription are its owner's, so the listener leaves them all
to his UPDATE. -/
theorem mem_cascade {del : Deletion} {db : Database} (ho : ImagesOwned db)
    (hdel : Owned db del.tid del.userId) {img : Image} (himg : img ∈ db.images.rows)
    (hvisible : img.deletedAt = none) (hparent : img.transcriptionId = del.tid) :
    img.id ∈ del.cascade db := by
  obtain ⟨tx, htx, huser⟩ := hdel
  obtain ⟨tx', htx', huser'⟩ := ho img himg
  rw [hparent, htx, Option.some.injEq] at htx'
  subst htx'
  refine List.mem_map.mpr ⟨img, mem_scopedSelect.mpr ⟨himg, ?_, huser'.symm.trans huser⟩, rfl⟩
  simp [liveImageOf, hparent, hvisible]

theorem foundVisible_step (hf : FoundVisible w) (ho : ImagesOwned w.db) (hd : DeletesOwned w)
    (hapart : AttachesApart w e) (h : (service sv).step w e = some w') : FoundVisible w' := by
  have hm := step_moves h
  intro p del found hp img' himg' hvisible hparent
  rcases hm.turns hp with hold | hturn
  · cases hm.content with
    | same ht hi => exact hf p del found hold img' (hi ▸ himg') hvisible hparent
    | deleted q del' found' hc ht hi =>
        rw [hi] at himg'
        obtain ⟨img, himg, rfl⟩ := mem_deleted_images.mp himg'
        split at hvisible
        · cases hvisible
        · rename_i hmissed
          rw [if_neg hmissed] at hparent ⊢
          exact hf p del found hold img himg hvisible hparent
    | inserted tx ht hi => exact hf p del found hold img' (hi ▸ himg') hvisible hparent
    | attached q row at_ img hc ht hi =>
        rw [(Table.insert?_eq_some hi).1, List.mem_append, List.mem_singleton] at himg'
        rcases himg' with himg' | rfl
        · exact hf p del found hold img' himg' hvisible hparent
        · exact absurd hparent (hapart q row at_ img' hc p del found hold)
  · cases hturn with
    | cascaded rm del he hold =>
        have hsame : w'.db = w.db := by
          simp only [he, service, step, hold, Option.bind_some, resume, resumeCascading,
            Option.some.injEq] at h
          rw [← h]
          rfl
        rw [hsame] at himg'
        exact mem_cascade ho (hd p _ del hold rfl) himg' hvisible hparent

end

/-- A handler by itself comes into nothing. -/
theorem attachesApart_of_single {w : World} {e : Event} {p : ℕ} (h : Single p w) :
    AttachesApart w e := by
  intro q row at_ img hc q' del found hq'
  obtain rfl := h q _ hc.handler
  obtain rfl := h q' _ hq'
  cases hc.handler.symm.trans hq'

/-- In a run in which no image comes into a delete, a delete hides all the images of
its transcription, and only the images that are committed later matter. -/
theorem imagesHidden_iff_of_apart (sv : Service) {w : World} (hw : Initial w)
    (ho : ImagesOwned w.db) (hh : ImagesHidden w.db) {es : List Event}
    (hapart : (service sv).Along (fun w e _ => AttachesApart w e) w es) :
    (service sv).Along (fun _ _ w' => ImagesHidden w'.db) w es ↔
      (service sv).Along (fun w e _ => AttachesLive w e) w es := by
  refine (service sv).along_iff_of_along (C := AttachesApart)
    (I := fun w => Sound sv w ∧ ChildrenLive w.db ∧ SessionsBound w ∧ ImagesOwned w.db ∧
      DeletesOwned w ∧ FoundVisible w)
    (fun w e w' hI hC hstep hkept => ?_) (fun w e w' hI hC hstep => ?_)
    ⟨sound_initial hw, hh.children, ?_, ho, ?_, ?_⟩ hapart
  · obtain ⟨hs, -, hb, howned, hd, hf⟩ := hI
    have hm := step_moves hstep
    exact ⟨sound_step hs hstep, hkept.children, sessionsBound_step hb hm,
      imagesOwned_step hs hb howned hm, deletesOwned_step hd hstep,
      foundVisible_step hf howned hd hC hstep⟩
  · obtain ⟨hs, hc, -, -, -, hf⟩ := hI
    rw [imagesHidden_iff_children, childrenLive_iff_step hs hc hstep]
    exact ⟨fun h => h.attaches, fun h => ⟨h, fun p del found hdel => hf p del found hdel.handler⟩⟩
  · intro i r tid hr
    rw [session?_initial hw] at hr
    cases hr
  · intro p h del hp
    rw [hw.handlers] at hp
    cases hp
  · intro p del found hp
    rw [hw.handlers] at hp
    cases hp

/-- Over every order of the operations and their awaits, no deleted transcription has
a visible image or has one served, exactly when every image is committed to a
transcription that is not deleted and every delete has found the images that are
visible when it commits. Over whole calls, and as long as no image comes into a
delete, that is when every image is committed to a transcription that is not
deleted. -/
theorem imagesHidden_iff (sv : Service) {w : World} (hw : Initial w) (hh : ImagesHidden w.db)
    (es : List Event) :
    ((service sv).Along (fun _ _ w' => ImagesHidden w'.db) w es ↔
      (service sv).Along (fun w e _ => CommitsHidden w e) w es) ∧
    (ImagesOwned w.db → (service sv).Along (fun w e _ => AttachesApart w e) w es →
      ((service sv).Along (fun _ _ w' => ImagesHidden w'.db) w es ↔
        (service sv).Along (fun w e _ => AttachesLive w e) w es)) :=
  ⟨imagesHidden_iff_commits sv hw hh es, fun ho => imagesHidden_iff_of_apart sv hw ho hh⟩

/-- An image for the minutes, to the UPDATE of its session. -/
def attachImage : List Event :=
  [.requestUploadUrl ⟨7, "nonce", "token"⟩ 1 3 "image" 8 (some "image/png") (some minutesId),
    .uploadImage 0 uploadRequest none, go 0 .ok,
    go 0 (.body [0x89, 0x50, 0x4e, 0x47, 0x0d, 0x0a, 0x1a, 0x0a] 20), go 0 .ok]

theorem imagesHidden_minutesWorld : ImagesHidden minutesWorld.db :=
  imagesHidden_iff_children.mpr fun _ himg => absurd himg List.not_mem_nil

/-- The image is attached, and the minutes are deleted. -/
theorem imagesHidden_iff_minutes :
    (service plainService).Along (fun _ _ w' => ImagesHidden w'.db) minutesWorld
        (attachImage ++ [go 0 .ok] ++ deleteMinutes 0) ↔
      (service plainService).Along (fun w e _ => AttachesLive w e) minutesWorld
        (attachImage ++ [go 0 .ok] ++ deleteMinutes 0) := by
  refine (imagesHidden_iff plainService initial_minutesWorld imagesHidden_minutesWorld _).2
    (fun _ himg => absurd himg List.not_mem_nil) ?_
  exact (along_single (single_initial initial_minutesWorld 0) (by decide)).mono _
    fun _ _ _ => attachesApart_of_single

/-- The minutes are deleted while an image for them is being uploaded. -/
theorem imagesHidden_fails :
    ∃ (sv : Service) (w t : World) (es : List Event), Initial w ∧ ImagesHidden w.db ∧
      (service sv).run w es = some t ∧ ¬ ImagesHidden t.db := by
  have hvisible : ((service plainService).run minutesWorld
      (attachImage ++ deleteMinutes 1 ++ [go 0 .ok])).any (fun t =>
        (t.db.images.rows.any fun img => img.transcriptionId = 9 ∧ img.deletedAt = none) &&
          (t.db.transcriptions.find? 9).all fun tx => tx.deletedAt.isSome) = true := by
    decide +kernel
  obtain ⟨t, ht, hvisible⟩ := (Option.any_eq_true _ _).mp hvisible
  refine ⟨plainService, minutesWorld, t, _, initial_minutesWorld, imagesHidden_minutesWorld, ht,
    fun hhidden => ?_⟩
  obtain ⟨himages, hdeleted⟩ := (Bool.and_eq_true _ _).mp hvisible
  obtain ⟨img, himg, hshown⟩ := List.any_eq_true.mp himages
  obtain ⟨hparent, hnone⟩ := of_decide_eq_true hshown
  obtain ⟨tx, htx, hlive⟩ := hhidden.children img himg hnone
  rw [hparent] at htx
  rw [htx, Option.all_some, hlive] at hdeleted
  cases hdeleted

end TranscriptionApi.Uploads
