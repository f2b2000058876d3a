import TranscriptionApi.Uploads.Images
import TranscriptionApi.Uploads.Restart

/-!
From `POST /api/upload-image` to the `transcription://{tid}/images/{iid}`
resource: the bytes that are served are the bytes that one upload read.

Only an upload writes a blob, under a path that ends in the id it has just
drawn. So over the lives of the service the blobs are indexed by the ids, and
`bodies` lists what the uploads have read for each. The row of an image is on its
way in a handler before it is committed, and its blob is there by then; a restart
drops the handler and keeps the blob.
-/

namespace TranscriptionApi.Uploads

open Api Auth Db Lib Mcp Pipeline Python

/-- The body that an image upload reads, and the id it draws for it. -/
def bodyRead : Life → Option (Uuid × Bytes)
  | .turn (.resume _ (.body raw imageId) _) => some (imageId, raw)
  | _ => none

/-- The bodies that the image uploads read. -/
def bodies (ls : List Life) : List (Uuid × Bytes) := ls.filterMap bodyRead

/-- The kind that `imghdr` has to detect for this MIME type. -/
def declaredKind (mimeType : String) : Option String :=
  let expectedExt := imageExtByMime mimeType
  if expectedExt = some "jpg" then some "jpeg" else expectedExt

/-- The bytes are of the kind that the row declares, and as many as it says. -/
structure Matches (img : Image) (raw : Bytes) : Prop where
  size : img.sizeBytes = raw.length
  kind : imghdrWhat (raw.take 32) = declaredKind img.mimeType
  declared : (declaredKind img.mimeType).isSome

/-- The file of the row holds the body that was read under its id. -/
structure Blob (sv : Service) (body : Uuid → Option Bytes) (blobs : String → Option Bytes)
    (img : Image) : Prop where
  path : ∃ row tid ext, img.filePath = blobPath sv.settings row tid img.id ext
  bytes : ∃ raw, body img.id = some raw ∧ blobs img.filePath = some raw ∧ Matches img raw

/-- An upload is past its writing of the file, the row not yet committed. -/
def World.Carries (w : World) (img : Image) : Prop :=
  ∃ q row at_, w.handlers q = some (.writing (.imageUploaded row at_ img)) ∨
    w.handlers q = some (.committing (.imageUploaded row at_ img))

/-- Every row, committed or on its way, has its file. -/
structure Backed (sv : Service) (body : Uuid → Option Bytes) (w : World) : Prop where
  stored : ∀ img ∈ w.db.images.rows, Blob sv body w.blobs img
  carried : ∀ img, w.Carries img → Blob sv body w.blobs img

/-! ### Paths -/

theorem blobPath_injective {settings : Settings} {row row' : UploadSession} {tid tid' i i' : Uuid}
    {ext ext' : String}
    (h : blobPath settings row tid i ext = blobPath settings row' tid' i' ext') : i = i' := by
  have hlength (u v : Uuid) : (uuidStr u).toList.length = (uuidStr v).toList.length := by
    rw [String.length_toList, String.length_toList, length_uuidStr, length_uuidStr]
  have hchars := congrArg String.toList h
  simp only [blobPath, String.toList_append, List.append_assoc] at hchars
  have hrest := List.append_cancel_left hchars
  have hrest := List.append_cancel_left hrest
  obtain ⟨-, hrest⟩ := List.append_inj hrest (hlength _ _)
  have hrest := List.append_cancel_left hrest
  obtain ⟨-, hrest⟩ := List.append_inj hrest (hlength _ _)
  have hrest := List.append_cancel_left hrest
  obtain ⟨hid, -⟩ := List.append_inj hrest (hlength _ _)
  exact uuidStr_injective (String.toList_injective hid)

/-- What the check of the magic bytes has found. -/
theorem checkImage_kind {settings : Settings} {row : UploadSession} {raw : Bytes} {ext : String}
    {tid : Uuid} (h : checkImage settings row raw = .ok (ext, tid)) :
    imghdrWhat (raw.take 32) = declaredKind (row.expectedMimeType.getD "") ∧
      (declaredKind (row.expectedMimeType.getD "")).isSome := by
  simp only [checkImage] at h
  split at h
  · cases h
  · unfold declaredKind
    cases hext : imageExtByMime (row.expectedMimeType.getD "") with
    | none => simp [hext] at h
    | some e =>
        have hsome : (if some e = some "jpg" then some "jpeg" else some e).isSome := by
          split
          · rfl
          · rfl
        rw [hext] at h
        generalize (if some e = some "jpg" then some "jpeg" else some e) = kind at h hsome ⊢
        dsimp only at h
        split at h
        · cases h
        · rename_i hkind
          exact ⟨not_not.mp hkind, hsome⟩

theorem matches_imageRow {settings : Settings} {row : UploadSession} {raw : Bytes} {ext : String}
    {tid : Uuid} (h : checkImage settings row raw = .ok (ext, tid)) (imageId : Uuid)
    (filename : Option String) (now : ℤ) :
    Matches (imageRow settings row tid imageId ext filename raw now) raw :=
  ⟨rfl, (checkImage_kind h).1, (checkImage_kind h).2⟩

/-! ### What a step does to the blobs -/

section

variable {sv : Service} {w w' : World} {e : Event}

/-- An upload that has its body checks it, and writes the file if it may. -/
theorem step_reading {p : ℕ} {a : Await} {rm : Uuid → RmOutcome} {filename : Option String}
    {row : UploadSession} {since : ℤ} (hp : w.handlers p = some (.reading filename row since))
    (h : step sv w (.resume p a rm) = some w') :
    (∃ entry, w' = w.finish p [entry]) ∨ ∃ raw imageId ext tid, a = .body raw imageId ∧
      checkImage sv.settings row raw = .ok (ext, tid) ∧
      w' = { w.goto p (.writing (.imageUploaded row w.now
          (imageRow sv.settings row tid imageId ext filename raw since))) with
        blobs := Function.update w.blobs (blobPath sv.settings row tid imageId ext)
          (some raw) } := by
  simp only [step, hp, Option.bind_some, resume] at h
  cases a with
  | body raw imageId =>
      simp only [resumeReading] at h
      split at h
      · cases h
        exact .inl ⟨_, rfl⟩
      · rename_i ext tid hcheck
        cases h
        exact .inr ⟨raw, imageId, ext, tid, rfl, hcheck, rfl⟩
  | raised =>
      cases h
      exact .inl ⟨_, rfl⟩
  | cancelled =>
      cases h
      exact .inl ⟨_, rfl⟩
  | _ => cases h

/-- How a step changes the blobs and the rows on their way. -/
inductive BlobsChange (sv : Service) (w w' : World) (e : Event) : Prop
  | same (hblobs : w'.blobs = w.blobs) (hcarries : ∀ img, w'.Carries img → w.Carries img)
  | written (p : ℕ) (rm : Uuid → RmOutcome) (filename : Option String) (row : UploadSession)
      (since : ℤ) (raw : Bytes) (imageId : Uuid) (ext : String) (tid : Uuid)
      (he : e = .resume p (.body raw imageId) rm)
      (hcheck : checkImage sv.settings row raw = .ok (ext, tid))
      (hblobs : w'.blobs =
        Function.update w.blobs (blobPath sv.settings row tid imageId ext) (some raw))
      (hcarries : ∀ img, w'.Carries img → w.Carries img ∨
        img = imageRow sv.settings row tid imageId ext filename raw since)

theorem step_blobs (h : step sv w e = some w') : BlobsChange sv w w' e := by
  by_cases hread : ∃ p a rm filename row since, e = .resume p a rm ∧
      w.handlers p = some (.reading filename row since)
  · obtain ⟨p, a, rm, filename, row, since, rfl, hp⟩ := hread
    rcases step_reading hp h with ⟨entry, rfl⟩ | ⟨raw, imageId, ext, tid, rfl, hcheck, rfl⟩
    · refine .same rfl ?_
      rintro img ⟨q, r, at_, hq | hq⟩
      · exact ⟨q, r, at_, .inl (handlers_finish hq).2⟩
      · exact ⟨q, r, at_, .inr (handlers_finish hq).2⟩
    · refine .written p rm filename row since raw imageId ext tid rfl hcheck rfl ?_
      rintro img ⟨q, r, at_, hq | hq⟩
      · rcases handlers_goto hq with ⟨-, heq⟩ | ⟨-, hq⟩
        · cases heq
          exact .inr rfl
        · exact .inl ⟨q, r, at_, .inl hq⟩
      · rcases handlers_goto hq with ⟨-, heq⟩ | ⟨-, hq⟩
        · cases heq
        · exact .inl ⟨q, r, at_, .inr hq⟩
  · have hm := step_moves h
    refine .same ?_ ?_
    · cases hm with
      | image p a rm filename row since img blobs hp =>
          exact absurd ⟨p, a, rm, _, _, _, rfl, hp⟩ hread
      | updated p rm wr locks hp =>
          show (w.leaveTry rm wr).blobs = w.blobs
          cases wr with
          | _ => rfl
      | committed p a rm wr db ha hp hdb =>
          show (w.accept wr).blobs = w.blobs
          cases wr with
          | _ => rfl
      | _ => rfl
    · rintro img ⟨q, r, at_, hq | hq⟩
      · rcases hm.turns hq with hold | hturn
        · exact ⟨q, r, at_, .inl hold⟩
        · cases hturn with
          | image filename row since img hold hdeleted hbound huser =>
              obtain ⟨a, rm, rfl⟩ := resume_of_moved hold hq (by simp) h
              exact absurd ⟨q, a, rm, _, _, _, rfl, hold⟩ hread
      · rcases hm.turns hq with hold | hturn
        · exact ⟨q, r, at_, .inr hold⟩
        · cases hturn with
          | updated rm wr he hold => exact ⟨q, r, at_, .inl hold⟩

/-! ### The invariant -/

variable {body : Uuid → Option Bytes}

/-- A step keeps the file of a row: what is written later has another path, or
is the same body once more. -/
theorem Blob.step {img : Image} (hb : Blob sv body w.blobs img) (hc : BlobsChange sv w w' e)
    (hbody : ∀ p raw i rm, e = .resume p (.body raw i) rm → body i = some raw) :
    Blob sv body w'.blobs img := by
  cases hc with
  | same hblobs hcarries => rwa [hblobs]
  | written p rm filename row since raw imageId ext tid he hcheck hblobs hcarries =>
      obtain ⟨hpath, raw₀, hraw₀, hfile, hmatches⟩ := hb
      refine ⟨hpath, raw₀, hraw₀, ?_, hmatches⟩
      rw [hblobs]
      by_cases hsame : img.filePath = blobPath sv.settings row tid imageId ext
      · obtain ⟨row₀, tid₀, ext₀, hpath₀⟩ := hpath
        have hid : img.id = imageId := blobPath_injective (hpath₀.symm.trans hsame)
        rw [hsame, Function.update_self, ← hraw₀, hid, hbody p raw imageId rm he]
      · rwa [Function.update_of_ne hsame]

theorem backed_step (hw : Backed sv body w)
    (hbody : ∀ p raw i rm, e = .resume p (.body raw i) rm → body i = some raw)
    (h : (service sv).step w e = some w') : Backed sv body w' := by
  have hchange := step_blobs h
  have hcarried : ∀ img, w'.Carries img → Blob sv body w'.blobs img := by
    intro img himg
    cases hchange with
    | same hblobs hcarries => exact hblobs ▸ hw.carried img (hcarries img himg)
    | written p rm filename row since raw imageId ext tid he hcheck hblobs hcarries =>
        rcases hcarries img himg with hold | rfl
        · exact (hw.carried img hold).step
            (.written p rm filename row since raw imageId ext tid he hcheck hblobs hcarries) hbody
        · refine ⟨⟨row, tid, ext, rfl⟩, raw, hbody p raw imageId rm he, ?_,
            matches_imageRow hcheck imageId filename since⟩
          rw [hblobs]
          exact Function.update_self ..
  refine ⟨fun img' himg' => ?_, hcarried⟩
  have hstays {img : Image} (himg : img ∈ w.db.images.rows) : Blob sv body w'.blobs img :=
    (hw.stored img himg).step hchange hbody
  cases (step_moves h).content with
  | same ht hi => exact hstays (hi ▸ himg')
  | deleted p del found hc ht hi =>
      rw [hi] at himg'
      obtain ⟨img, himg, rfl⟩ := mem_deleted_images.mp himg'
      obtain ⟨hpath, hbytes⟩ := hstays himg
      -- a delete keeps the id, the path and what the row says of the bytes
      split
      · obtain ⟨raw, hraw, hfile, hmatches⟩ := hbytes
        exact ⟨hpath, raw, hraw, hfile, hmatches.size, hmatches.kind, hmatches.declared⟩
      · exact ⟨hpath, hbytes⟩
  | inserted tx ht hi => exact hstays (hi ▸ himg')
  | attached p row at_ img hc ht hi =>
      rw [(Table.insert?_eq_some hi).1, List.mem_append, List.mem_singleton] at himg'
      rcases himg' with himg' | rfl
      · exact hstays himg'
      · exact (hw.carried img' ⟨p, row, at_, .inr hc.handler⟩).step hchange hbody

/-- The images that were inserted are still in the table. -/
def LoggedImages (w : World) : Prop :=
  ∀ s i, Entry.imageInserted s i ∈ w.log → ∃ img ∈ w.db.images.rows, img.id = i

theorem ContentChange.image (h : ContentChange w w' e) {img : Image}
    (himg : img ∈ w.db.images.rows) : ∃ img' ∈ w'.db.images.rows, img'.id = img.id := by
  cases h with
  | same ht hi => exact ⟨img, hi ▸ himg, rfl⟩
  | deleted p del found hc ht hi =>
      refine ⟨_, by rw [hi]; exact mem_deleted_images.mpr ⟨img, himg, rfl⟩, ?_⟩
      split
      · rfl
      · rfl
  | inserted tx ht hi => exact ⟨img, hi ▸ himg, rfl⟩
  | attached p row at_ new hc ht hi =>
      refine ⟨img, ?_, rfl⟩
      rw [(Table.insert?_eq_some hi).1]
      exact List.mem_append_left _ himg

theorem loggedImages_step (hw : LoggedImages w) (h : (service sv).step w e = some w') :
    LoggedImages w' := by
  have hm := step_moves h
  have hold {s i : Uuid} (hlog : Entry.imageInserted s i ∈ w.log) :
      ∃ img ∈ w'.db.images.rows, img.id = i := by
    obtain ⟨img, himg, rfl⟩ := hw s i hlog
    exact hm.content.image himg
  intro s i hlog
  cases hm.log with
  | refused es hes hrefusal =>
      rw [hes, List.mem_append] at hlog
      rcases hlog with hlog | hlog
      · exact hold hlog
      · exact (hrefusal _ hlog).elim
  | committed p a wr hc hdb hes =>
      rw [hes, List.mem_append] at hlog
      rcases hlog with hlog | hlog
      · exact hold hlog
      · have hinserted : ∃ row at_ img, wr = .imageUploaded row at_ img ∧ img.id = i := by
          cases wr with
          | imageUploaded row at_ img =>
              refine ⟨row, at_, img, rfl, ?_⟩
              cases a with
              | _ => simp_all [Write.entries, Write.effects, Write.answer, Write.success,
                  Write.failure]
          | _ => cases a with
            | _ => simp [Write.entries, Write.effects, Write.answer, Write.success,
                Write.failure] at hlog
        obtain ⟨row, at_, img, rfl, rfl⟩ := hinserted
        obtain ⟨t, ht, heq⟩ := Option.map_eq_some_iff.mp hdb
        refine ⟨img, ?_, rfl⟩
        rw [← heq, (Table.insert?_eq_some ht).1]
        exact List.mem_append_right _ List.mem_cons_self
  | deleted p a del found hc hdb hes =>
      rw [hes, List.mem_append] at hlog
      rcases hlog with hlog | hlog
      · exact hold hlog
      · cases a with
        | _ => simp [Deletion.entries, Deletion.answer, Deletion.failure] at hlog

end

/-! ### What the resource answers -/

theorem imageResource_ok_iff {files : String → Option Bytes} {v : Uuid} {tid iid : String}
    {db : Database} {bytes : Bytes} :
    (imageResource files v tid iid db).1 = .ok bytes ↔ ∃ img ∈ db.images.rows,
      uuid tid = some img.transcriptionId ∧ uuid iid = some img.id ∧ img.userId = v ∧
        img.deletedAt = none ∧ files img.filePath = some bytes := by
  unfold imageResource
  cases htid : uuid tid with
  | none => simp
  | some tid =>
      cases hiid : uuid iid with
      | none => simp
      | some iid =>
          have hpick (img : Image) : img ∈ scopedSelect db.images Image.userId v
              (fun r => r.id = iid && r.transcriptionId = tid && r.deletedAt.isNone) ↔
              img ∈ db.images.rows ∧ ((img.id = iid ∧ img.transcriptionId = tid) ∧
                img.deletedAt = none) ∧ img.userId = v := by
            simp only [mem_scopedSelect, Bool.and_eq_true, decide_eq_true_eq,
              Option.isNone_iff_eq_none]
          simp only [mcpRequestSession, Option.some.injEq]
          cases hrows : scopedSelect db.images Image.userId v
              (fun r => r.id = iid && r.transcriptionId = tid && r.deletedAt.isNone) with
          | nil =>
              refine iff_of_false (by simp) ?_
              rintro ⟨img, himg, hparent, hid, howner, hvisible, -⟩
              have hmem := (hpick img).mpr
                ⟨himg, ⟨⟨hid.symm, hparent.symm⟩, hvisible⟩, howner⟩
              rw [hrows] at hmem
              cases hmem
          | cons img rest =>
              obtain ⟨himg, ⟨⟨hid, hparent⟩, hvisible⟩, howner⟩ :=
                (hpick img).mp (hrows ▸ List.mem_cons_self)
              constructor
              · intro hserved
                refine ⟨img, himg, hparent.symm, hid.symm, howner, hvisible, ?_⟩
                cases hfile : files img.filePath with
                | none => simp [hfile] at hserved
                | some raw => simpa [hfile] using hserved
              · rintro ⟨img', himg', -, hid', -, -, hfile⟩
                -- the id is the primary key
                obtain rfl : img' = img := Table.eq_of_key_eq himg' himg (hid'.symm.trans hid.symm)
                simp [hfile]

/-- The resource serves an image to its owner, as long as it is not deleted,
with the body of the upload that inserted it; and every row has such a body. -/
structure ServedAsUploaded (ls : List Life) (t : World) : Prop where
  stored : ∀ img ∈ t.db.images.rows, ∃ raw, (img.id, raw) ∈ bodies ls ∧ Matches img raw
  inserted : ∀ s i, Entry.imageInserted s i ∈ t.log → ∃ img ∈ t.db.images.rows, img.id = i
  served : ∀ v tid iid bytes, (imageResource t.blobs v tid iid t.db).1 = .ok bytes ↔
    ∃ img ∈ t.db.images.rows, uuid tid = some img.transcriptionId ∧ uuid iid = some img.id ∧
      img.userId = v ∧ img.deletedAt = none ∧ (img.id, bytes) ∈ bodies ls ∧ Matches img bytes

theorem mem_bodies {ls : List Life} {p : ℕ} {raw : Bytes} {i : Uuid} {rm : Uuid → RmOutcome}
    (h : .turn (.resume p (.body raw i) rm) ∈ ls) : (i, raw) ∈ bodies ls :=
  List.mem_filterMap.mpr ⟨_, h, rfl⟩

theorem backed_life {sv : Service} {w w' : World} {l : Life} {body : Uuid → Option Bytes}
    (hw : Backed sv body w)
    (hbody : ∀ p raw i rm, l = .turn (.resume p (.body raw i) rm) → body i = some raw)
    (h : (lives sv).step w l = some w') : Backed sv body w' := by
  cases l with
  | turn e => exact backed_step hw (fun p raw i rm he => hbody p raw i rm (he ▸ rfl)) h
  | restart boot =>
      obtain rfl := Option.some.inj h
      refine ⟨hw.stored, ?_⟩
      rintro img ⟨q, row, at_, hq | hq⟩
      · cases hq
      · cases hq

theorem loggedImages_life {sv : Service} {w w' : World} {l : Life} (hw : LoggedImages w)
    (h : (lives sv).step w l = some w') : LoggedImages w' := by
  cases l with
  | turn e => exact loggedImages_step hw h
  | restart boot =>
      obtain rfl := Option.some.inj h
      exact hw

/-- Over every order of the operations and restarts, when no two uploads draw the
same id: what the resource serves is what the upload has read. -/
theorem servedAsUploaded_of_lives (sv : Service) {w t : World} {ls : List Life} (hw : Initial w)
    (himages : w.db.images.rows = []) (hdraws : ((bodies ls).map Prod.fst).Nodup)
    (hrun : (lives sv).run w ls = some t) : ServedAsUploaded ls t := by
  -- the bodies as a table with the drawn id as its key
  let drawn : Table (Uuid × Bytes) Prod.fst := ⟨bodies ls, hdraws⟩
  let body (i : Uuid) : Option Bytes := (drawn.find? i).map Prod.snd
  have hbody {i : Uuid} {raw : Bytes} : body i = some raw ↔ (i, raw) ∈ bodies ls := by
    rw [Option.map_eq_some_iff]
    constructor
    · rintro ⟨⟨j, raw⟩, hfind, rfl⟩
      obtain ⟨hmem, rfl⟩ := Table.find?_eq_some_iff.mp hfind
      exact hmem
    · exact fun hmem => ⟨(i, raw), Table.find?_of_mem (t := drawn) hmem, rfl⟩
  have hbacked : Backed sv body t := by
    refine (lives sv).invariant_along
      (C := fun _ l => ∀ p raw i rm, l = .turn (.resume p (.body raw i) rm) → body i = some raw)
      (fun w l w' hw hC hstep => backed_life hw hC hstep) ⟨?_, ?_⟩
      ((lives sv).along_of_forall fun l hl p raw i rm heq => ?_) hrun
    · intro img himg
      rw [himages] at himg
      cases himg
    · rintro img ⟨q, row, at_, hq | hq⟩
      · rw [hw.handlers] at hq
        cases hq
      · rw [hw.handlers] at hq
        cases hq
    · exact hbody.mpr (mem_bodies (heq ▸ hl))
  have hlogged : LoggedImages t :=
    (lives sv).invariant_run (fun w l w' hw hstep => loggedImages_life hw hstep)
      (fun s i hlog => by simp [hw.log] at hlog) hrun
  refine ⟨fun img himg => ?_, hlogged, fun v tid iid bytes => ?_⟩
  · obtain ⟨-, raw, hraw, -, hmatches⟩ := hbacked.stored img himg
    exact ⟨raw, hbody.mp hraw, hmatches⟩
  rw [imageResource_ok_iff]
  refine exists_congr fun img => and_congr_right fun himg => ?_
  refine and_congr_right fun _ => and_congr_right fun _ => and_congr_right fun _ =>
    and_congr_right fun _ => ?_
  obtain ⟨-, raw, hraw, hfile, hmatches⟩ := hbacked.stored img himg
  constructor
  · intro hserved
    obtain rfl := Option.some.inj (hfile.symm.trans hserved)
    exact ⟨hbody.mp hraw, hmatches⟩
  · rintro ⟨hmem, -⟩
    rw [hfile, ← hraw, hbody.mpr hmem]

/-- The image of the minutes is uploaded and served. -/
theorem servedAsUploaded_minutes : ∃ t : World,
    (lives plainService).run minutesWorld ((attachImage ++ [go 0 .ok]).map .turn) = some t ∧
      ServedAsUploaded ((attachImage ++ [go 0 .ok]).map .turn) t := by
  obtain ⟨t, ht⟩ := Option.isSome_iff_exists.mp
    (by decide +kernel : ((lives plainService).run minutesWorld
      ((attachImage ++ [go 0 .ok]).map .turn)).isSome = true)
  exact ⟨t, ht, servedAsUploaded_of_lives plainService initial_minutesWorld rfl (by decide) ht⟩

end TranscriptionApi.Uploads
