import TranscriptionApi.Lib.FileTree
import TranscriptionApi.Uploads.Retry

/-!
The service over several lives of its process.

A process that dies takes its handlers with it: their transactions are rolled
back and their locks are free. The database and the disk stay, and the next
process begins with `_purge_orphan_uploads`, which unlinks the files it finds in
the uploads directory itself. The bytes of a session are one directory below, so
the pass leaves them; what a restart can lose is the file of a start that has
removed it and not yet committed.
-/

namespace TranscriptionApi.Uploads

open Api Auth Db Lib Mcp Pipeline Python

/-! ### The pass at start-up -/

/-- What `_purge_orphan_uploads` meets: the disk, the order of the listing, and
the `unlink` calls that raise. -/
structure Boot where
  disk : FileTree StoredFile
  uploads : Path
  order : List String → List String
  order_perm : ∀ l, (order l).Perm l
  unlinkFault : String → Option Errno

namespace Boot

variable (boot : Boot)

/-- One entry of the listing. -/
def unlinkOrphan (t : FileTree StoredFile) (entry : String) : FileTree StoredFile :=
  if (t.file? (boot.uploads ++ [entry])).isSome then
    match boot.unlinkFault entry with
    | some _ => t
    | none =>
        match t.unlink boot.uploads entry with
        | .error _ => t
        | .ok t' => t'
  else t

/-- `_purge_orphan_uploads`. -/
def purgeOrphanUploads : FileTree StoredFile :=
  if boot.disk.isDir boot.uploads then
    (boot.disk.iterdir boot.order boot.uploads).foldl boot.unlinkOrphan boot.disk
  else boot.disk

variable {boot}

theorem isDir_unlinkOrphan (t : FileTree StoredFile) (entry : String) (q : Path) :
    (boot.unlinkOrphan t entry).isDir q = t.isDir q := by
  unfold unlinkOrphan
  split
  · split
    · rfl
    · split
      · rfl
      · rename_i hunlink
        exact FileTree.isDir_unlink hunlink
  · rfl

/-- An entry is gone if its `unlink` does not raise, and the others stay. -/
theorem file?_unlinkOrphan (t : FileTree StoredFile) (entry : String) (q : Path) :
    (boot.unlinkOrphan t entry).file? q =
      if q = boot.uploads ++ [entry] ∧ boot.unlinkFault entry = none then none
      else t.file? q := by
  unfold unlinkOrphan
  cases hfile : t.file? (boot.uploads ++ [entry]) with
  | none =>
      simp only [Option.isSome_none, Bool.false_eq_true, if_false]
      split
      · rename_i hq
        rw [hq.1, hfile]
      · rfl
  | some f =>
      simp only [Option.isSome_some, if_true]
      cases hfault : boot.unlinkFault entry with
      | some e => simp
      | none =>
          obtain ⟨t', hunlink⟩ := FileTree.unlink_isOk hfile
          simp only [hunlink, and_true]
          exact FileTree.file?_unlink hunlink q

theorem isDir_foldl_unlinkOrphan (entries : List String) (t : FileTree StoredFile) (q : Path) :
    (entries.foldl boot.unlinkOrphan t).isDir q = t.isDir q := by
  induction entries generalizing t with
  | nil => rfl
  | cons entry entries ih => exact (ih _).trans (isDir_unlinkOrphan t entry q)

theorem file?_foldl_unlinkOrphan (entries : List String) (t : FileTree StoredFile) (q : Path) :
    (entries.foldl boot.unlinkOrphan t).file? q =
      if ∃ entry ∈ entries, q = boot.uploads ++ [entry] ∧ boot.unlinkFault entry = none then none
      else t.file? q := by
  induction entries generalizing t with
  | nil => simp
  | cons entry entries ih =>
      rw [List.foldl_cons, ih, file?_unlinkOrphan]
      by_cases hrest : ∃ e ∈ entries, q = boot.uploads ++ [e] ∧ boot.unlinkFault e = none
      · obtain ⟨e, he, hq⟩ := hrest
        rw [if_pos ⟨e, he, hq⟩, if_pos ⟨e, List.mem_cons_of_mem _ he, hq⟩]
      · rw [if_neg hrest]
        refine if_congr ?_ rfl rfl
        simp only [List.mem_cons, exists_eq_or_imp, hrest, or_false]

theorem isDir_purgeOrphanUploads (q : Path) :
    boot.purgeOrphanUploads.isDir q = boot.disk.isDir q := by
  unfold purgeOrphanUploads
  split
  · exact isDir_foldl_unlinkOrphan _ _ _
  · rfl

/-- The pass takes away the regular files in the uploads directory itself, save
those whose `unlink` raises. -/
theorem file?_orphan {entry : String} (hfault : boot.unlinkFault entry = none) :
    boot.purgeOrphanUploads.file? (boot.uploads ++ [entry]) = none := by
  have hnone (h : boot.disk.node (boot.uploads ++ [entry]) = none) :
      boot.disk.file? (boot.uploads ++ [entry]) = none := by
    rw [FileTree.file?, h]
    rfl
  unfold purgeOrphanUploads
  split
  · rw [file?_foldl_unlinkOrphan]
    split
    · rfl
    · rename_i hlisted
      refine hnone (Option.not_isSome_iff_eq_none.mp fun hsome => hlisted ?_)
      exact ⟨entry, (FileTree.mem_iterdir boot.order_perm).mpr hsome, rfl, hfault⟩
  · rename_i hdir
    exact hnone (boot.disk.child_eq_none (Bool.eq_false_iff.mpr hdir) entry)

/-- It takes away nothing else. -/
theorem file?_purgeOrphanUploads {q : Path}
    (hq : ∀ entry, q = boot.uploads ++ [entry] → boot.unlinkFault entry ≠ none) :
    boot.purgeOrphanUploads.file? q = boot.disk.file? q := by
  unfold purgeOrphanUploads
  split
  · rw [file?_foldl_unlinkOrphan, if_neg]
    rintro ⟨entry, -, hpath, hfault⟩
    exact hq entry hpath hfault
  · rfl

end Boot

/-- The per-upload directories on a disk. -/
def uploadDirs (t : FileTree StoredFile) (uploads : Path) (i : Uuid) : Option UploadDir :=
  if t.isDir (uploads ++ [uuidStr i]) then
    some ⟨(t.file? (uploads ++ [uuidStr i, "original.bin"])).map Prod.fst⟩
  else none

theorem uploadDirs_purgeOrphanUploads (boot : Boot) :
    uploadDirs boot.purgeOrphanUploads boot.uploads = uploadDirs boot.disk boot.uploads := by
  funext i
  unfold uploadDirs
  rw [Boot.isDir_purgeOrphanUploads, Boot.file?_purgeOrphanUploads]
  intro entry hpath
  exact absurd (List.append_cancel_left hpath) (by simp)

/-! ### Lives -/

/-- A turn of the service, or the end of its process and the start of the next. -/
inductive Life where
  | turn (e : Event)
  | restart (boot : Boot)

def World.restart (w : World) (boot : Boot) : World :=
  { w with
    dirs := uploadDirs boot.purgeOrphanUploads boot.uploads
    handlers := fun _ => none
    locks := fun _ => none
    deleteLocks := fun _ => none }

/-- The service with its restarts. -/
def lives (sv : Service) : System World Life where
  step
    | w, .turn e => (service sv).step w e
    | w, .restart boot => some (w.restart boot)

/-- The disk has the directories of the sessions that can be started on as the
process left them. -/
def Boot.Found (sv : Service) (boot : Boot) (w : World) : Prop :=
  ∀ i r, Retryable sv w i r → uploadDirs boot.disk boot.uploads i = w.dirs i

section

variable {sv : Service} {w w' : World} {boot : Boot}

@[simp] theorem restart_session? (i : Uuid) : (w.restart boot).session? i = w.session? i := rfl

theorem sound_restart (hw : Sound sv w) : Sound sv (w.restart boot) where
  rows := hw.rows
  known := fun _ _ hp => nomatch hp
  facts := fun _ _ hp => nomatch hp

/-- What every turn keeps and a restart too. -/
theorem sound_life {l : Life} (hw : Sound sv w) (h : (lives sv).step w l = some w') :
    Sound sv w' := by
  cases l with
  | turn e => exact sound_step hw h
  | restart boot =>
      obtain rfl := Option.some.inj h
      exact sound_restart hw

/-! ### What a restart loses -/

/-- The turns respect the files, and a restart finds the disk as it was. -/
def LivesRespected (sv : Service) (w : World) : Life → Prop
  | .turn e => FilesRespected sv w e
  | .restart boot => boot.Found sv w

/-- A restart comes when no start has removed the file of a session that can
still be started on. -/
def RestartsApart (sv : Service) (w : World) (l : Life) (_ : World) : Prop :=
  ∀ boot, l = .restart boot → ∀ i r, Retryable sv w i r → w.original? i = none → ¬ Consuming w i

theorem original?_restart (hfound : boot.Found sv w) {i : Uuid} {r : UploadSession}
    (hr : Retryable sv w i r) : (w.restart boot).original? i = w.original? i := by
  show (uploadDirs boot.purgeOrphanUploads boot.uploads i).bind _ = _
  rw [uploadDirs_purgeOrphanUploads, hfound i r hr]
  rfl

theorem retryReady_restart_iff (hk : FilesKept sv w) (hfound : boot.Found sv w) :
    RetryReady sv (w.restart boot) ↔
      ∀ i r, Retryable sv w i r → w.original? i = none → ¬ Consuming w i := by
  constructor
  · intro hready i r hr hnone _
    obtain ⟨⟨f, hf, -⟩, -⟩ := hready i r ⟨hr.row, hr.kind, hr.status, hr.now⟩
      fun _ _ hp => nomatch hp
    rw [original?_restart hfound hr, hnone] at hf
    cases hf
  · intro happart i r hr _
    have hbefore : Retryable sv w i r := ⟨hr.row, hr.kind, hr.status, hr.now⟩
    refine ⟨?_, checkUploadRow_eq_ok hr.status hr.now⟩
    rw [original?_restart hfound hbefore]
    exact (hk.kept i r hbefore).resolve_right fun hlost => happart i r hbefore hlost.1 hlost.2

/-- Nothing is in flight after a restart, so the files of the sessions are all
there is to keep. -/
theorem filesKept_restart (hready : RetryReady sv (w.restart boot)) :
    FilesKept sv (w.restart boot) where
  alone := fun _ _ _ _ _ hp => nomatch hp
  pending := fun _ _ _ _ hp => nomatch hp
  holds := fun _ _ _ _ hp => nomatch hp
  kept := fun i r hr => .inl (hready i r hr fun _ _ hp => nomatch hp).1

end

/-- Over any number of lives: every session that can be started on has its bytes,
exactly when no restart comes between the removal of the file by a start and its
COMMIT. -/
theorem retryReady_lives_iff (sv : Service) {w : World} (hw : Initial w) {ls : List Life}
    (hc : (lives sv).Along (fun w l _ => LivesRespected sv w l) w ls) :
    (lives sv).Along (fun _ _ w' => RetryReady sv w') w ls ↔
      (lives sv).Along (RestartsApart sv) w ls := by
  refine (lives sv).along_iff_of_along (C := LivesRespected sv)
    (I := fun w => Sound sv w ∧ FilesKept sv w) (fun w l w' hI hC hstep hready => ?_)
    (fun w l w' hI hC hstep => ?_) ⟨sound_initial hw, filesKept_initial hw⟩ hc
  · refine ⟨sound_life hI.1 hstep, ?_⟩
    cases l with
    | turn e => exact filesKept_step hI.1 hI.2 hC hstep
    | restart boot =>
        obtain rfl := Option.some.inj hstep
        exact filesKept_restart hready
  · cases l with
    | turn e =>
        have hkept := filesKept_step hI.1 hI.2 hC hstep
        exact ⟨fun _ _ h => (nomatch h), fun _ => retryReady_of_filesKept hkept⟩
    | restart boot =>
        obtain rfl := Option.some.inj hstep
        rw [retryReady_restart_iff hI.2 hC]
        constructor
        · intro happart boot' _
          exact happart
        · exact fun h => h boot rfl

/-- The turns of one life, and what comes after it. -/
theorem along_turns {sv : Service} {P : World → Life → World → Prop} {w : World}
    {es : List Event} {ls : List Life}
    (hes : (service sv).Along (fun w e w' => P w (.turn e) w') w es)
    (hls : ∀ t, (service sv).run w es = some t → (lives sv).Along P t ls) :
    (lives sv).Along P w (es.map .turn ++ ls) := by
  induction es generalizing w with
  | nil => exact hls w rfl
  | cons e es ih =>
      intro w' hstep
      obtain ⟨hP, hrest⟩ := hes w' hstep
      refine ⟨hP, ih hrest fun t ht => hls t ?_⟩
      exact ((service sv).run_cons_eq_some).mpr ⟨w', hstep, ht⟩

/-- The disk after the upload, with a file that a request left behind. -/
def diskAfterUpload : FileTree StoredFile :=
  let dirs := (FileTree.empty.mkdirs [] ["data", "uploads", uuidStr 7]).2
  let stored := (dirs.writeFile ["data", "uploads", uuidStr 7] "original.bin"
    ⟨0, [1, 2, 3, 4]⟩ 0).toOption.getD dirs
  (stored.writeFile ["data", "uploads"] "orphan.mp3" ⟨1, [5]⟩ 0).toOption.getD stored

def bootAfterUpload : Boot where
  disk := diskAfterUpload
  uploads := ["data", "uploads"]
  order := id
  order_perm := fun _ => .refl _
  unlinkFault := fun _ => none

/-- An upload, and a restart after it. -/
theorem retryReady_lives_iff_oneUpload :
    (lives plainService).Along (fun _ _ w' => RetryReady plainService w') emptyWorld
        (oneUpload.map .turn ++ [.restart bootAfterUpload]) ↔
      (lives plainService).Along (RestartsApart plainService) emptyWorld
        (oneUpload.map .turn ++ [.restart bootAfterUpload]) := by
  refine retryReady_lives_iff plainService initial_emptyWorld ?_
  refine along_turns ?_ fun t ht w' hstep => ⟨?_, trivial⟩
  · have hcheck : (service plainService).checkAlong filesCheck emptyWorld oneUpload = true := by
      decide +kernel
    have hsingle : (service plainService).Along (fun w _ _ => Single 0 w) emptyWorld oneUpload :=
      along_single (single_initial initial_emptyWorld 0) (by decide)
    exact (hsingle.and _ ((service plainService).along_of_check hcheck)).mono _
      fun _ _ _ h => filesRespected_of_check h.1 h.2
  · have hleft : ((service plainService).run emptyWorld oneUpload).map (fun t =>
        (t.dirs 7, t.db.uploadSessions.rows.map UploadSession.id)) =
          some (some ⟨some ⟨0, [1, 2, 3, 4]⟩⟩, [7]) := by decide +kernel
    rw [ht, Option.map_some, Option.some.injEq, Prod.mk.injEq] at hleft
    intro i r hr
    have hmem : i ∈ t.db.uploadSessions.rows.map UploadSession.id :=
      List.mem_map.mpr ⟨r, Table.mem_of_find? hr.row, Table.key_of_find? hr.row⟩
    rw [hleft.2, List.mem_singleton] at hmem
    rw [hmem, hleft.1]
    decide +kernel

end TranscriptionApi.Uploads
