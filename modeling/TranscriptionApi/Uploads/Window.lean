import TranscriptionApi.Uploads.Status

/-!
The window of a start: from the moment `start_transcription` has passed
`_load_upload_row` until its `orchestrate` call ends.

Nothing in the code marks a session as being transcribed, so a window is safe
only from the handlers that happen to stay away. Three schedules bring one in:
a second start that passes its own check on the session, a purge whose SELECT
picks the session, an upload that commits over another status. Without these the
window is undisturbed, and a purge that picked the session earlier is no danger:
a session it could pick was past its grace period, and the check refuses it.
-/

namespace TranscriptionApi.Uploads

open Api Auth Db Lib Mcp Pipeline Python

namespace Handler

/-- The session whose window a handler is in. -/
def window : Handler → Option Uuid
  | .orchestrating row _ => some row.id
  | _ => none

/-- The session of a start that has passed its check. -/
def startOf : Handler → Option Uuid
  | .orchestrating row _ => some row.id
  | .writing (.consumed row _ _ _) => some row.id
  | .committing (.consumed row _ _ _) => some row.id
  | _ => none

/-- The sessions a purge pass has selected. -/
def purges : Handler → List UploadSession
  | .purgeSelected rows => rows
  | .writing (.expired rows) => rows
  | .committing (.expired rows) => rows
  | _ => []

end Handler

/-- A step of another handler neither removes the directory of a session in its
window nor changes the session's status. -/
def WindowKept (w : World) (e : Event) (w' : World) : Prop :=
  ∀ p row since, w.handlers p = some (.orchestrating row since) → (∀ a rm, e ≠ .resume p a rm) →
    ((w.dirs row.id).isSome → (w'.dirs row.id).isSome) ∧
      w'.db.status? row.id = w.db.status? row.id

/-- A start passes its check only when no other start is past its own, on the
same session. -/
def PassesAlone (sv : Service) (w : World) (e : Event) : Prop :=
  ∀ p rm row since, e = .resume p .ok rm → w.handlers p = some (.loading row since) →
    checkUploadRow sv.settings w.now row = .ok () →
    ∀ q h, w.handlers q = some h → h.startOf ≠ some row.id

/-- The SELECT of a purge picks no session in its window. -/
def PurgesOutsideWindows (w : World) (e : Event) : Prop :=
  ∀ p rm cutoff, e = .resume p .ok rm → w.handlers p = some (.purging cutoff) →
    ∀ q row since, w.handlers q = some (.orchestrating row since) →
      ∀ r ∈ expiredCandidates w.db cutoff, r.id ≠ row.id

/-- An upload that commits on a session in its window finds it `uploaded`. -/
def UploadsOverUploaded (w : World) (e : Event) : Prop :=
  ∀ p wr, Commits w e p wr → wr.target = .uploaded →
    ∀ q row since, w.handlers q = some (.orchestrating row since) → row.id ∈ wr.ids →
      w.db.status? row.id = some .uploaded

structure WindowsRespected (sv : Service) (w : World) (e : Event) : Prop where
  alone : PassesAlone sv w e
  purges : PurgesOutsideWindows w e
  uploads : UploadsOverUploaded w e

/-- At most one start is past its check on a session, and no purge pass holds a
session in its window. -/
structure WindowsClear (w : World) : Prop where
  starts : ∀ p q h h' i, w.handlers p = some h → w.handlers q = some h' →
    h.startOf = some i → h'.startOf = some i → p = q
  purges : ∀ p q row since h, w.handlers p = some (.orchestrating row since) →
    w.handlers q = some h →
      ∀ r ∈ h.purges, r.id ≠ row.id

section

variable {sv : Service} {w w' : World} {e : Event} {p q : ℕ} {i : Uuid} {h' : Handler}

/-- A start gets past its check in one way only. -/
theorem startOf_of_turns (ht : Turns sv w e q h') (hi : h'.startOf = some i) :
    (∃ h, w.handlers q = some h ∧ h.startOf = some i) ∨
      ∃ rm row since, e = .resume q .ok rm ∧ w.handlers q = some (.loading row since) ∧
        row.id = i ∧
        row.status = .uploaded ∧ w.now ≤ row.expiresAt + sv.settings.grace := by
  cases ht with
  | passed rm row since he hold hstatus hnow =>
      exact .inr ⟨rm, row, since, he, hold, Option.some.inj hi, hstatus, hnow⟩
  | orchestrated row since r txId hold => exact .inl ⟨_, hold, hi⟩
  | updated rm wr he hold =>
      refine .inl ⟨_, hold, ?_⟩
      cases wr with
      | consumed row at_ tx r => exact hi
      | _ => cases hi
  | _ => cases hi

/-- A purge pass holds what its SELECT returned. -/
theorem purges_of_turns (ht : Turns sv w e q h') {r : UploadSession} (hr : r ∈ h'.purges) :
    (∃ h, w.handlers q = some h ∧ r ∈ h.purges) ∨
      ∃ rm cutoff, e = .resume q .ok rm ∧ w.handlers q = some (.purging cutoff) ∧
        r ∈ expiredCandidates w.db cutoff := by
  cases ht with
  | candidates rm cutoff he hold => exact .inr ⟨rm, cutoff, he, hold, hr⟩
  | purged rows hold => exact .inl ⟨_, hold, hr⟩
  | updated rm wr he hold =>
      refine .inl ⟨_, hold, ?_⟩
      cases wr with
      | expired rows => exact hr
      | _ => exact absurd hr List.not_mem_nil
  | _ => exact absurd hr List.not_mem_nil

/-- A session that a purge pass holds is past its grace period. -/
theorem pastGrace_of_purges (hw : Sound sv w) {h : Handler} (hq : w.handlers q = some h)
    {r : UploadSession} (hr : r ∈ h.purges) : Known w r ∧ PastGrace sv w.now r := by
  have hrows : r ∈ h.rows ∧ PastGrace sv w.now r := by
    have hfacts := hw.facts q h hq
    cases h with
    | purgeSelected rows => exact ⟨hr, hfacts r hr⟩
    | writing wr =>
        cases wr with
        | expired rows => exact ⟨hr, hfacts r hr⟩
        | _ => exact absurd hr List.not_mem_nil
    | committing wr =>
        cases wr with
        | expired rows => exact ⟨hr, hfacts r hr⟩
        | _ => exact absurd hr List.not_mem_nil
    | _ => exact absurd hr List.not_mem_nil
  exact ⟨hw.known q h hq r hrows.1, hrows.2⟩

/-- Two snapshots of one session agree on its expiry. -/
theorem expiresAt_eq {a b : UploadSession} (ha : Known w a) (hb : Known w b)
    (hid : a.id = b.id) : a.expiresAt = b.expiresAt := by
  obtain ⟨r, hr, hlead⟩ := ha
  obtain ⟨r', hr', hlead'⟩ := hb
  rw [hid] at hr
  obtain rfl := Option.some.inj (hr.symm.trans hr')
  rw [← hlead.expiresAt, hlead'.expiresAt]

theorem checkUploadRow_eq_ok {settings : Settings} {now : ℤ} {row : UploadSession}
    (hstatus : row.status = .uploaded) (hnow : now ≤ row.expiresAt + settings.grace) :
    checkUploadRow settings now row = .ok () := by
  have hnot : ¬ now > row.expiresAt + settings.grace := by omega
  simp [checkUploadRow, hstatus, hnot]

theorem windowsClear_step (hw : Sound sv w) (hclear : WindowsClear w)
    (hc : WindowsRespected sv w e) (h : (service sv).step w e = some w') : WindowsClear w' := by
  have hmoves := step_moves h
  -- a start past its check after the step was so before it, or passes alone
  have hstart {q : ℕ} {h' : Handler} {i : Uuid} (hq : w'.handlers q = some h')
      (hi : h'.startOf = some i) :
      (∃ h, w.handlers q = some h ∧ h.startOf = some i) ∨
        (∃ rm, e = .resume q .ok rm) ∧
          ∀ p h, w.handlers p = some h → h.startOf ≠ some i := by
    rcases hmoves.turns hq with hold | hturn
    · exact .inl ⟨h', hold, hi⟩
    · rcases startOf_of_turns hturn hi with hold | ⟨rm, row, since, he, hold, rfl, hstatus, hnow⟩
      · exact .inl hold
      · exact .inr ⟨⟨rm, he⟩, hc.alone q rm row since he hold (checkUploadRow_eq_ok hstatus hnow)⟩
  constructor
  · intro p q h₁ h₂ i hp hq h₁i h₂i
    rcases hstart hp h₁i with ⟨g₁, hg₁, hg₁i⟩ | ⟨⟨rm, he⟩, halone⟩
    · rcases hstart hq h₂i with ⟨g₂, hg₂, hg₂i⟩ | ⟨-, halone⟩
      · exact hclear.starts p q g₁ g₂ i hg₁ hg₂ hg₁i hg₂i
      · exact absurd hg₁i (halone p g₁ hg₁)
    · rcases hstart hq h₂i with ⟨g₂, hg₂, hg₂i⟩ | ⟨⟨rm', he'⟩, -⟩
      · exact absurd hg₂i (halone q g₂ hg₂)
      · rw [he] at he'
        injection he'
  · intro p q row since h₂ hp hq r hr
    have hpurge : (∃ g, w.handlers q = some g ∧ r ∈ g.purges) ∨
        ∃ rm cutoff, e = .resume q .ok rm ∧ w.handlers q = some (.purging cutoff) ∧
          r ∈ expiredCandidates w.db cutoff := by
      rcases hmoves.turns hq with hold | hturn
      · exact .inl ⟨h₂, hold, hr⟩
      · exact purges_of_turns hturn hr
    rcases hmoves.turns hp with hold | hturn
    · rcases hpurge with ⟨g, hg, hrg⟩ | ⟨rm, cutoff, he, hcut, hrc⟩
      · exact hclear.purges p q row since g hold hg r hrg
      · exact hc.purges q rm cutoff he hcut p row since hold r hrc
    · cases hturn with
      | passed rm row since he hload hstatus hnow =>
          rcases hpurge with ⟨g, hg, hrg⟩ | ⟨rm', cutoff, he', hcut, hrc⟩
          · -- what the pass holds is too old for the check to let it through
            intro hid
            obtain ⟨hknown, hpast⟩ := pastGrace_of_purges hw hg hrg
            have hrow := hw.known p _ hload row List.mem_cons_self
            have hexp := expiresAt_eq hknown hrow hid
            have hlate : r.expiresAt + sv.settings.grace < w.now := hpast
            omega
          · rw [he] at he'
            injection he' with hpq
            subst hpq
            rw [hload] at hcut
            cases hcut

theorem windowsClear_initial (hw : Initial w) : WindowsClear w where
  starts := fun p q h h' i hp => by simp [hw.handlers p] at hp
  purges := fun p q row since h hp => by simp [hw.handlers p] at hp

/-! ### What a step of another handler does to a directory -/

theorem setDir_isSome {i j : Uuid} {d : Option UploadDir} (hd : i = j → d.isSome)
    (h : (w.dirs j).isSome) : ((w.setDir i d).dirs j).isSome := by
  show (Function.update w.dirs i d j).isSome
  by_cases hij : i = j
  · subst hij
    rw [Function.update_self]
    exact hd rfl
  · rw [Function.update_of_ne (Ne.symm hij)]
    exact h

/-- A directory survives a step, unless a start on its session cleans up or a
purge pass that holds its session removes it. -/
theorem Moves.dir_isSome (hm : Moves sv w e w') (hdir : (w.dirs i).isSome)
    (hstarts : ∀ p a rm h, e = .resume p a rm → w.handlers p = some h → h.startOf ≠ some i)
    (hpurges : ∀ p h, w.handlers p = some h → ∀ r ∈ h.purges, r.id ≠ i) :
    (w'.dirs i).isSome := by
  cases hm with
  | opened p rm plaintext filename row since hp hnow hkind hcheck =>
      exact setDir_isSome (fun _ => rfl) hdir
  | openFailed p rm plaintext filename row since hp hcheck =>
      exact setDir_isSome (fun _ => rfl) hdir
  | chunk p rm row fh received bytes hp =>
      refine setDir_isSome (fun heq => ?_) hdir
      rw [writeTo, Option.isSome_map, heq]
      exact hdir
  | unlinked p a rm row fh received answer hp hanswer =>
      refine setDir_isSome (fun heq => ?_) hdir
      rw [unlinkOriginal, Option.isSome_map, heq]
      exact hdir
  | cleaned p a rm row h entry hp hh ha hentry =>
      refine setDir_isSome (fun heq => ?_) hdir
      refine absurd ?_ (hstarts p a rm h rfl hp)
      rcases hh with ⟨since, rfl⟩ | ⟨at_, tx, r, rfl⟩
      · exact congrArg some heq
      · exact congrArg some heq
  | purgeStopped p rm rows entry hp hentry =>
      have hheld : ∀ r ∈ rows, r.id ≠ i := hpurges p _ hp
      show ((purgeDirs rm rows w.dirs).1 i).isSome
      rw [purgeDirs_of_notMem hheld]
      exact hdir
  | purged p rm rows hp =>
      have hheld : ∀ r ∈ rows, r.id ≠ i := hpurges p _ hp
      show ((purgeDirs rm rows w.dirs).1 i).isSome
      rw [purgeDirs_of_notMem hheld]
      exact hdir
  | updated p rm wr locks hp =>
      cases wr with
      | consumed row at_ tx r =>
          refine setDir_isSome (fun heq => ?_) hdir
          exact absurd (congrArg some heq) (hstarts p .ok rm _ rfl hp)
      | _ => exact hdir
  | committed p a rm wr db ha hp hdb =>
      show ((w.accept wr).dirs i).isSome
      rw [accept_dirs]
      exact hdir
  | _ => exact hdir

theorem windowKept_step (hw : Sound sv w) (hclear : WindowsClear w)
    (hc : WindowsRespected sv w e) (h : (service sv).step w e = some w') :
    WindowKept w e w' := by
  intro p row since hp hother
  have hmoves := step_moves h
  -- a start that takes this step would be another one on the same session
  have hstarts : ∀ q a rm g, e = .resume q a rm → w.handlers q = some g →
      g.startOf ≠ some row.id := by
    intro q a rm g he hg hgi
    have hpq := hclear.starts p q _ g row.id hp hg rfl hgi
    exact hother a rm (hpq ▸ he)
  refine ⟨fun hdir => hmoves.dir_isSome hdir hstarts fun q g hg =>
    hclear.purges p q row since g hp hg, ?_⟩
  cases hmoves.sessions with
  | same h => rw [Database.status?, Database.status?, h]
  | requested new hfree hnonce hstatus huploaded hconsumed hbound h =>
      obtain ⟨r, hr, -⟩ := hw.known p _ hp row List.mem_cons_self
      have hne : new.id ≠ row.id := by
        intro heq
        rw [heq, hr] at hfree
        cases hfree
      have hrow := h row.id
      rw [if_neg hne] at hrow
      exact congrArg (Option.map UploadSession.status) hrow
  | committed q wr hcommit hset =>
      have hstatus : w'.db.status? row.id =
          (w.db.status? row.id).map fun st => if row.id ∈ wr.ids then wr.target else st := by
        obtain ⟨⟨a, rm, rfl, ha⟩, hq⟩ := hcommit
        obtain ⟨db, hdb, rfl⟩ := step_committing hq ha h
        exact status?_of_committed hdb row.id
      obtain ⟨a, rm, he, -⟩ := hcommit.event
      have hq := hcommit.handler
      rw [hstatus]
      split
      · rename_i hmem
        cases wr with
        | uploaded row' at_ bytes =>
            rw [hc.uploads q _ hcommit rfl p row since hp hmem]
            rfl
        | imageUploaded row' at_ img =>
            rw [hc.uploads q _ hcommit rfl p row since hp hmem]
            rfl
        | consumed row' at_ tx r =>
            have hid := List.mem_singleton.mp hmem
            exact absurd (congrArg some hid.symm) (hstarts q a rm _ he hq)
        | expired rows =>
            obtain ⟨r, hr, hid⟩ := List.mem_map.mp hmem
            exact absurd hid (hclear.purges p q row since _ hp hq r hr)
      · cases w.db.status? row.id with
        | none => rfl
        | some st => rfl

/-- With one handler in flight there is nothing to stay away from. -/
theorem windowsRespected_of_single {p₀ : ℕ} (hw : Single p₀ w) : WindowsRespected sv w e where
  alone := fun p rm row since _ hp _ q h hq => by
    obtain rfl := (hw q h hq).trans (hw p _ hp).symm
    obtain rfl := Option.some.inj (hp.symm.trans hq)
    exact fun h => nomatch h
  purges := fun p rm cutoff _ hp q row since hq => by
    obtain rfl := (hw q _ hq).trans (hw p _ hp).symm
    cases hp.symm.trans hq
  uploads := fun p wr hc _ q row since hq => by
    have hp := hc.handler
    obtain rfl := (hw q _ hq).trans (hw p _ hp).symm
    cases hp.symm.trans hq

end

/-- In every run in which starts pass their check alone, purges select outside
windows and uploads commit over `uploaded`, no window is disturbed. -/
theorem windowKept_along (sv : Service) {w : World} (hw : Initial w) (es : List Event)
    (hc : (service sv).Along (fun w e _ => WindowsRespected sv w e) w es) :
    (service sv).Along WindowKept w es :=
  (service sv).along_of_step (C := WindowsRespected sv)
    (I := fun w => Sound sv w ∧ WindowsClear w)
    (fun _ _ _ hs hcond hstep =>
      ⟨sound_step hs.1 hstep, windowsClear_step hs.1 hs.2 hcond hstep⟩)
    (fun _ _ _ hs hcond hstep => windowKept_step hs.1 hs.2 hcond hstep)
    ⟨sound_initial hw, windowsClear_initial hw⟩ hc

/-- An upload and its transcription, one handler after the other. -/
def oneByOne : List Event :=
  [requestAudio, .uploadAudio 0 uploadRequest] ++ finishUpload 0 [1, 2, 3, 4] ++ [start 0] ++
    finishStart 0 9

theorem windowKept_along_oneByOne :
    (service plainService).Along WindowKept emptyWorld oneByOne :=
  windowKept_along plainService initial_emptyWorld oneByOne
    (.mono _ (fun _ _ _ => windowsRespected_of_single)
      (along_single (single_initial initial_emptyWorld 0) (by decide)))

/-- Two starts on one session; the second passes its check while the first is
in its window, and fails. -/
def secondStart : List Event :=
  [requestAudio, .uploadAudio 0 uploadRequest] ++ finishUpload 0 [1, 2, 3, 4] ++
    [start 2, start 3, go 2 .ok, go 3 .ok]

theorem orchestrating_of_window {o : Option Handler} {i : Uuid}
    (h : o.bind Handler.window = some i) :
    ∃ row since, o = some (.orchestrating row since) ∧ row.id = i := by
  obtain ⟨handler, rfl, hi⟩ := Option.bind_eq_some_iff.mp h
  cases handler with
  | orchestrating row since => exact ⟨row, since, rfl, Option.some.inj hi⟩
  | _ => cases hi

/-- The clean-up of the second start removes the directory under the first. -/
theorem windowKept_fails :
    ¬ ∀ (sv : Service) (w : World) (es : List Event), Initial w →
      (service sv).Along WindowKept w es := by
  intro h
  let busy := go 3 (.failed (.gpuBusy 30))
  have hbefore : ((service plainService).run emptyWorld secondStart).map
      (fun w => ((w.handlers 2).bind Handler.window, (w.dirs 7).isSome)) =
        some (some 7, true) := by decide +kernel
  have hafter : ((service plainService).run emptyWorld (secondStart ++ [busy])).map
      (fun w => (w.dirs 7).isSome) = some false := by decide +kernel
  obtain ⟨w, hw, hobserved⟩ := Option.map_eq_some_iff.mp hbefore
  obtain ⟨w', hw', hremoved⟩ := Option.map_eq_some_iff.mp hafter
  rw [System.run_append, hw, Option.bind_some, System.run_cons_eq_some] at hw'
  obtain ⟨w'', hstep, hrun⟩ := hw'
  obtain rfl := Option.some.inj hrun
  rw [Prod.mk.injEq] at hobserved
  obtain ⟨row, since, hrow, hid⟩ := orchestrating_of_window hobserved.1
  have hkept := System.Along.at_step _
    (h plainService emptyWorld (secondStart ++ busy :: []) initial_emptyWorld) hw hstep
  have hdir := (hkept 2 row since hrow fun a rm he => absurd (Event.resume.inj he).1 (by decide)).1
  rw [hid, hobserved.2, hremoved] at hdir
  exact absurd (hdir rfl) (by decide)

end TranscriptionApi.Uploads
