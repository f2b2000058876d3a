import TranscriptionApi.Pipeline.Hits

/-!
The age of the entries that answer.

`CacheStore.get` does not look at the time of an entry: only a purge ends its
life. An entry older than the TTL that no pass has removed is found like any
other, so calls are answered from young entries as long as the passes come in
time, and no longer.
-/

namespace TranscriptionApi.Pipeline

open Lib Python

variable {δ φ : Type} (S : Services δ φ) (settings : ModelSettings) (base : Path) (ttl : ℕ)

/-- A call that finds an entry older than the TTL takes it for a miss, and
overwrites it when it returns. -/
def ExpiryLaw (s : CacheWorld δ φ) (e : CacheEvent φ) (s' : CacheWorld δ φ) : Prop :=
  match e with
  | .purge _ => True
  | .call call => ∀ h duration content mtime, validAudioHash h = true → LooksUp call h duration →
      s.tree.file? (entryPath base call.userId h) = some (content, mtime) →
      seconds ttl < call.now - mtime →
        (orchestrate S settings base s.tree call).hit = false ∧
        Stage.transcribe ∈ (orchestrate S settings base s.tree call).stages ∧
        ∀ result, (orchestrate S settings base s.tree call).result = .ok result →
          ∃ payload text, (orchestrate S settings base s.tree call).written = some (h, payload) ∧
            Json.dumps S.interpreter.floats S.interpreter.limits (.obj payload) = .ok text ∧
            s'.tree.file? (entryPath base call.userId h) = some (encodeUtf8 text, call.writtenAt)

/-- When the call looks its audio up, what was last written for it is not older
than the TTL, or a pass has removed it. -/
def CleanedInTime (s : CacheWorld δ φ) (e : CacheEvent φ) (_ : CacheWorld δ φ) : Prop :=
  match e with
  | .purge _ => True
  | .call call => ∀ h duration payload writtenAt, validAudioHash h = true →
      LooksUp call h duration →
      lastWrite base s.log call.userId h = some (payload, writtenAt) →
      call.now - writtenAt ≤ seconds ttl

variable {S} {settings} {base} {ttl} {t : FileTree Bytes}

theorem expiryLaw_iff {s s' : CacheWorld δ φ} {e : CacheEvent φ} (hs : Recorded S settings base s)
    (hstep : (cacheSystem S settings base).step s e = some s') :
    ExpiryLaw S settings base ttl s e s' ↔ CleanedInTime base ttl s e s' := by
  cases e with
  | purge pass => exact Iff.rfl
  | call call =>
      constructor
      · intro hlaw h duration payload writtenAt hh hlook hlast
        by_contra hold
        -- the lookup finds the old entry, which the law does not allow
        obtain ⟨-, text, -, hfile⟩ := hs.refines.present _ h payload writtenAt hh hlast
        have hget := hs.refines.get (u := call.userId) hh
        rw [hlast] at hget
        obtain ⟨hmiss, -⟩ := hlaw h duration _ writtenAt hh hlook hfile (lt_of_not_ge hold)
        rw [orchestrate_hit hlook hget] at hmiss
        cases hmiss
      · intro hclean h duration content mtime hh hlook hfile hold
        -- what is on disk is what was last written
        cases hlast : lastWrite base s.log call.userId h with
        | none =>
            rw [hs.refines.absent _ h hh hlast] at hfile
            cases hfile
        | some e =>
            obtain ⟨payload, writtenAt⟩ := e
            obtain ⟨-, text, -, hfile'⟩ := hs.refines.present _ h payload writtenAt hh hlast
            rw [hfile] at hfile'
            cases hfile'
            exact absurd hold (not_lt_of_ge (hclean h duration payload mtime hh hlook hlast))

/-- Along a run, expired entries are misses if and only if the passes remove
them before the calls come. -/
theorem expiry_iff (hfresh : Fresh base t) (es : List (CacheEvent φ)) :
    (cacheSystem S settings base).Along (ExpiryLaw S settings base ttl) (startWorld t) es ↔
      (cacheSystem S settings base).Along (CleanedInTime base ttl) (startWorld t) es :=
  (cacheSystem S settings base).along_iff (I := Recorded S settings base)
    (fun _ _ _ hs hstep _ => hs.step hstep) (fun _ _ _ hs hstep => expiryLaw_iff hs hstep)
    (recorded_startWorld hfresh)

/-- A pass that is not refused anything is in time for every call up to its own
time. -/
theorem young_of_purge {s : CacheWorld δ φ} (hs : Recorded S settings base s) {pass : Pass}
    (hpass : pass.Faultless) {u : Uuid} {h : String} {payload : Json.Fields φ} {writtenAt : ℤ}
    (hh : validAudioHash h = true)
    (hlast : lastWrite base (afterPurge base s pass).log u h = some (payload, writtenAt)) :
    pass.now - writtenAt ≤ seconds pass.ttlSeconds := by
  obtain ⟨-, hremoved⟩ := purgeExpired_faultless hpass hs.refines.layout.result
  have hold := CacheMap.of_keep hlast
  obtain ⟨-, text, -, hfile⟩ := hs.refines.present u h payload writtenAt hh hold
  by_contra hexpired
  have hgone : entryPath base u h ∈ (purgeExpired base pass s.tree).removed := by
    refine (hremoved _).mpr ⟨isExpectedLayout_entryPath u h, _, writtenAt, hfile, ?_⟩
    rw [Pass.cutoff]
    omega
  have hkept : (afterPurge base s pass).tree.file? (entryPath base u h) = none := by
    show (purgeExpired base pass s.tree).tree.file? _ = none
    rw [(purged_purgeExpired base pass s.tree).file?, if_pos hgone]
  have hstep : (cacheSystem S settings base).step s (.purge pass) =
      some (afterPurge base s pass) := rfl
  obtain ⟨-, text', -, hfile'⟩ := (hs.step hstep).refines.present u h payload writtenAt hh hlast
  rw [hkept] at hfile'
  cases hfile'

/-- The same audio again, a day and a second after it was stored. -/
def lateCall : OrchestrateCall ℤ :=
  { sampleCall with now := 86404000000, writtenAt := 86405000000, rowId := 3 }

/-- No pass has run between the two calls, and the second is answered from the
entry of the first. -/
theorem expired_entry_answers :
    ¬(cacheSystem sampleServices {} ["data", "cache"]).Along
      (ExpiryLaw sampleServices {} ["data", "cache"] 86400) (startWorld FileTree.empty)
      [.call sampleCall, .call lateCall] := by
  intro hlaws
  have hs : Recorded sampleServices {} ["data", "cache"]
      (afterCall sampleServices {} ["data", "cache"] (startWorld FileTree.empty) sampleCall) :=
    (recorded_startWorld (fresh_empty _)).step (e := .call sampleCall) rfl
  have hclean := (expiryLaw_iff hs (e := .call lateCall) rfl).mp ((hlaws _ rfl).2 _ rfl).1
  have hlast : (lastWrite ["data", "cache"] (afterCall sampleServices {} ["data", "cache"]
      (startWorld FileTree.empty) sampleCall).log 1 sampleHash).map Prod.snd = some 3000000 := by
    decide +kernel
  obtain ⟨⟨payload, writtenAt⟩, hwrite, rfl⟩ := Option.map_eq_some_iff.mp hlast
  exact absurd
    (hclean sampleHash (.finite 12) payload 3000000 (by decide +kernel) ⟨rfl, rfl⟩ hwrite)
    (by decide)

/-- Half a second after the entry has expired. -/
def latePass : Pass where
  now := 86403500000
  ttlSeconds := 86400
  order := id
  order_perm := fun _ => .rfl
  statFault := fun _ => none
  unlinkFault := fun _ => none
  rmdirFault := fun _ => none
  dirMtime := fun _ => 0

/-- With this pass between the two calls, the second is a miss. -/
theorem expiry_iff_sample :
    (cacheSystem sampleServices {} ["data", "cache"]).Along
      (ExpiryLaw sampleServices {} ["data", "cache"] 86400) (startWorld FileTree.empty)
      [.call sampleCall, .purge latePass, .call lateCall] := by
  refine (expiry_iff (fresh_empty _) _).mpr ?_
  have hgone : (lastWrite ["data", "cache"] (afterPurge ["data", "cache"]
      (afterCall sampleServices {} ["data", "cache"] (startWorld FileTree.empty) sampleCall)
      latePass).log 1 sampleHash).isNone = true := by
    decide +kernel
  intro s hs
  cases hs
  refine ⟨fun h duration payload writtenAt _ _ hlast => (by cases hlast), fun s hs => ?_⟩
  cases hs
  refine ⟨trivial, fun s hs => ?_⟩
  cases hs
  refine ⟨fun h duration payload writtenAt _ hlook hlast => ?_, trivial⟩
  cases hlook.2
  have hnone := Option.isNone_iff_eq_none.mp hgone
  exact absurd (hnone.symm.trans hlast) (by simp)

end TranscriptionApi.Pipeline
