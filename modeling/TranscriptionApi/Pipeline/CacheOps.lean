import TranscriptionApi.Lib.Json.Scalars
import TranscriptionApi.Pipeline.CacheMap

/-!
Calls of the store and passes of the purge, in any order: the store is the map
of `CacheMap`. After any sequence of them a lookup finds the payload of the last
`put` of its key that no `delete` and no pass has taken away since.
-/

namespace TranscriptionApi.Pipeline

open Lib Python

/-- A dictionary of JSON values: its keys are distinct, on every level. -/
structure Payload (φ : Type) where
  fields : Json.Fields φ
  distinct : (Json.Value.obj fields).Distinct

inductive CacheOp (φ : Type) where
  | put (u : Uuid) (h : String) (payload : Payload φ) (now : ℤ)
  | get (u : Uuid) (h : String)
  | delete (u : Uuid) (h : String)
  | purge (pass : Pass) (faultless : pass.Faultless)

variable {φ : Type} (P : Json.Interpreter φ) (base : Path)

/-- `json.dumps(payload)` returns. -/
def Payload.Dumps (payload : Payload φ) : Prop :=
  (Json.dumps P.floats P.limits (.obj payload.fields)).isOk = true

instance (payload : Payload φ) : Decidable (payload.Dumps P) :=
  inferInstanceAs (Decidable (_ = true))

def applyOp (t : FileTree Bytes) : CacheOp φ → FileTree Bytes
  | .put u h payload now => (CacheStore.put P base t u h (.obj payload.fields) now).2
  | .get _ _ => t
  | .delete u h => (CacheStore.delete base t u h).2
  | .purge pass _ => (purgeExpired base pass t).tree

def runOps (t : FileTree Bytes) (ops : List (CacheOp φ)) : FileTree Bytes :=
  ops.foldl (applyOp P base) t

/-- The same on the map. -/
def mapOp (m : CacheMap φ) : CacheOp φ → CacheMap φ
  | .put u h payload now =>
      if validAudioHash h ∧ payload.Dumps P then m.set u h (some (payload.fields, now)) else m
  | .get _ _ => m
  | .delete u h => if validAudioHash h then m.set u h none else m
  | .purge pass _ => m.keep fun _ _ at_ => pass.cutoff ≤ at_

/-- The operation leaves an entry of this key and this age in place. -/
def Keeps (u : Uuid) (h : String) (at_ : ℤ) : CacheOp φ → Prop
  | .put u' h' payload _ => ¬((u' = u ∧ h' = h) ∧ payload.Dumps P)
  | .get _ _ => True
  | .delete u' h' => ¬(u' = u ∧ h' = h)
  | .purge pass _ => ¬at_ < pass.cutoff

/-- The last `put` of the key that is still in force. -/
def IsLatest (ops : List (CacheOp φ)) (u : Uuid) (h : String) (payload : Payload φ) : Prop :=
  ∃ before now after, ops = before ++ .put u h payload now :: after ∧ payload.Dumps P ∧
    ∀ op ∈ after, Keeps P u h now op

/-- The key an operation is about; a pass is about none. -/
def CacheOp.key : CacheOp φ → Option (Uuid × String)
  | .put u h _ _ => some (u, h)
  | .get u h => some (u, h)
  | .delete u h => some (u, h)
  | .purge _ _ => none

variable {P base} {t t₀ : FileTree Bytes} {m m' : CacheMap φ}

theorem Payload.dumps_iff {payload : Payload φ} : payload.Dumps P ↔
    ∃ text, Json.dumps P.floats P.limits (.obj payload.fields) = .ok text := by
  unfold Dumps
  cases Json.dumps P.floats P.limits (.obj payload.fields) with
  | error e => simp [Except.isOk, Except.toBool]
  | ok text => simp [Except.isOk, Except.toBool]

/-- A map matters at the keys of entries alone. -/
theorem Refines.congr (hr : Refines P base t m)
    (h : ∀ u h, validAudioHash h = true → m' u h = m u h) : Refines P base t m' where
  layout := hr.layout
  absent := fun u k hk hm => hr.absent u k hk (h u k hk ▸ hm)
  present := fun u k fields at_ hk hm => hr.present u k fields at_ hk (h u k hk ▸ hm)

/-- The step lemma of the refinement. -/
theorem Refines.apply (hr : Refines P base t m) (op : CacheOp φ) :
    Refines P base (applyOp P base t op) (mapOp P m op) := by
  cases op with
  | put u h payload now =>
      show Refines P base (CacheStore.put P base t u h (.obj payload.fields) now).2
        (if validAudioHash h ∧ payload.Dumps P then m.set u h (some (payload.fields, now)) else m)
      split
      · rename_i hput
        obtain ⟨text, htext⟩ := Payload.dumps_iff.mp hput.2
        exact hr.put payload.distinct (hr.layout.put_isOk hput.1 htext)
      · -- a `put` that returns has printed its payload
        rename_i hput
        cases hok : (CacheStore.put P base t u h (.obj payload.fields) now).1 with
        | error e => exact hr.put_error hok
        | ok r =>
            refine absurd ?_ hput
            obtain ⟨hh, text, htext, -⟩ := put_ok hok
            exact ⟨hh, Payload.dumps_iff.mpr ⟨text, htext⟩⟩
  | get u h => exact hr
  | delete u h =>
      show Refines P base (CacheStore.delete base t u h).2
        (if validAudioHash h then m.set u h none else m)
      split
      · rename_i hh
        exact hr.delete hh
      · rename_i hh
        rw [CacheStore.delete, if_neg hh]
        exact hr
  | purge pass faultless =>
      refine hr.purge.congr fun u h hh => ?_
      obtain ⟨-, hremoved⟩ := purgeExpired_faultless faultless hr.layout.result
      cases hm : m u h with
      | none => rw [mapOp, CacheMap.keep_of_none hm, CacheMap.keep_of_none hm]
      | some e =>
          obtain ⟨-, text, -, hfile⟩ := hr.present u h e.1 e.2 hh hm
          have hexp : entryPath base u h ∈ (purgeExpired base pass t).removed ↔
              ¬pass.cutoff ≤ e.2 := by
            rw [hremoved, Expired, hfile]
            simp [isExpectedLayout_entryPath]
          rw [mapOp, CacheMap.keep_of_some hm, CacheMap.keep_of_some hm]
          simp [hexp]

/-- The run lemma. -/
theorem Refines.run (hr : Refines P base t m) (ops : List (CacheOp φ)) :
    Refines P base (runOps P base t ops) (ops.foldl (mapOp P) m) := by
  induction ops generalizing t m with
  | nil => exact hr
  | cons op ops ih => exact ih (hr.apply op)

/-- A call touches the file of its key. -/
theorem file?_applyOp_of_key_ne {op : CacheOp φ} {u u' : Uuid} {h h' : String}
    (hop : op.key = some (u, h)) (hkey : ¬(u' = u ∧ h' = h)) :
    (applyOp P base t op).file? (entryPath base u' h') = t.file? (entryPath base u' h') := by
  have hne : entryPath base u' h' ≠ entryPath base u h := fun heq =>
    hkey (entryPath_injective heq)
  cases op with
  | put u₁ h₁ payload now =>
      cases hop
      exact file?_put_of_ne hne entryPath_ne_tmpPath
  | get u₁ h₁ => rfl
  | delete u₁ h₁ =>
      cases hop
      exact file?_delete_of_ne hne
  | purge pass faultless => cases hop

/-! ### The last `put` in force -/

section Latest

variable {u : Uuid} {h : String}

theorem mapOp_of_keeps {op : CacheOp φ} {fields : Json.Fields φ} {at_ : ℤ}
    (hm : m u h = some (fields, at_)) (hop : Keeps P u h at_ op) :
    mapOp P m op u h = some (fields, at_) := by
  cases op with
  | put u' h' payload now =>
      show (if _ then m.set u' h' _ else m) u h = _
      split
      · rename_i hput
        rw [m.set_of_ne, hm]
        exact fun hkey => hop ⟨⟨hkey.1.symm, hkey.2.symm⟩, hput.2⟩
      · exact hm
  | get u' h' => exact hm
  | delete u' h' =>
      show (if _ then m.set u' h' _ else m) u h = _
      split
      · rw [m.set_of_ne, hm]
        exact fun hkey => hop ⟨hkey.1.symm, hkey.2.symm⟩
      · exact hm
  | purge pass faultless =>
      rw [mapOp, CacheMap.keep_of_some hm]
      exact if_pos (by simpa using le_of_not_gt hop)

/-- What is in the map after an operation was put there by it, or left there. -/
theorem mapOp_eq_some {op : CacheOp φ} {fields : Json.Fields φ} {at_ : ℤ}
    (hh : validAudioHash h = true) (hop : mapOp P m op u h = some (fields, at_)) :
    (∃ payload, op = .put u h payload at_ ∧ payload.fields = fields ∧ payload.Dumps P) ∨
      m u h = some (fields, at_) ∧ Keeps P u h at_ op := by
  cases op with
  | put u' h' payload now =>
      by_cases hkey : u' = u ∧ h' = h
      · obtain ⟨rfl, rfl⟩ := hkey
        by_cases hdumps : payload.Dumps P
        · rw [mapOp, if_pos ⟨hh, hdumps⟩, CacheMap.set_self] at hop
          cases hop
          exact .inl ⟨payload, rfl, rfl, hdumps⟩
        · rw [mapOp, if_neg fun hput => hdumps hput.2] at hop
          exact .inr ⟨hop, fun hput => hdumps hput.2⟩
      · refine .inr ⟨?_, fun hput => hkey hput.1⟩
        rw [mapOp] at hop
        split at hop
        · rwa [m.set_of_ne _ fun heq => hkey ⟨heq.1.symm, heq.2.symm⟩] at hop
        · exact hop
  | get u' h' => exact .inr ⟨hop, trivial⟩
  | delete u' h' =>
      by_cases hkey : u' = u ∧ h' = h
      · obtain ⟨rfl, rfl⟩ := hkey
        rw [mapOp, if_pos hh, CacheMap.set_self] at hop
        cases hop
      · refine .inr ⟨?_, hkey⟩
        rw [mapOp] at hop
        split at hop
        · rwa [m.set_of_ne _ fun heq => hkey ⟨heq.1.symm, heq.2.symm⟩] at hop
        · exact hop
  | purge pass faultless =>
      rw [mapOp] at hop
      cases hm : m u h with
      | none =>
          rw [CacheMap.keep_of_none hm] at hop
          cases hop
      | some e =>
          rw [CacheMap.keep_of_some hm] at hop
          split at hop
          · rename_i hyoung
            cases hop
            exact .inr ⟨rfl, not_lt_of_ge (by simpa using hyoung)⟩
          · cases hop

theorem foldl_of_keeps {after : List (CacheOp φ)} {fields : Json.Fields φ} {at_ : ℤ}
    (hm : m u h = some (fields, at_)) (hafter : ∀ op ∈ after, Keeps P u h at_ op) :
    after.foldl (mapOp P) m u h = some (fields, at_) := by
  induction after generalizing m with
  | nil => exact hm
  | cons op after ih =>
      exact ih (mapOp_of_keeps hm (hafter op List.mem_cons_self)) fun op' hop' =>
        hafter op' (List.mem_cons_of_mem op hop')

/-- The map holds what is latest, -/
theorem map_of_isLatest {ops : List (CacheOp φ)} {payload : Payload φ}
    (hh : validAudioHash h = true) (hlatest : IsLatest P ops u h payload) :
    ∃ at_, ops.foldl (mapOp P) m u h = some (payload.fields, at_) := by
  obtain ⟨before, now, after, rfl, hdumps, hafter⟩ := hlatest
  refine ⟨now, ?_⟩
  rw [List.foldl_append, List.foldl_cons]
  refine foldl_of_keeps ?_ hafter
  rw [mapOp, if_pos ⟨hh, hdumps⟩, CacheMap.set_self]

/-- and nothing else. -/
theorem isLatest_of_map (hh : validAudioHash h = true) (ops : List (CacheOp φ))
    {fields : Json.Fields φ} {at_ : ℤ}
    (hmap : ops.foldl (mapOp P) CacheMap.empty u h = some (fields, at_)) :
    ∃ payload : Payload φ, payload.fields = fields ∧ payload.Dumps P ∧ ∃ before after,
      ops = before ++ .put u h payload at_ :: after ∧ ∀ op ∈ after, Keeps P u h at_ op := by
  induction ops using List.reverseRecOn with
  | nil => cases hmap
  | append_singleton ops op ih =>
      rw [List.foldl_append, List.foldl_cons, List.foldl_nil] at hmap
      -- the last operation has put it there, or left it there
      rcases mapOp_eq_some hh hmap with ⟨payload, rfl, hfields, hdumps⟩ | ⟨hold, hkeeps⟩
      · exact ⟨payload, hfields, hdumps, ops, [], rfl, fun _ hop => by cases hop⟩
      · obtain ⟨payload, hfields, hdumps, before, after, rfl, hafter⟩ := ih hold
        refine ⟨payload, hfields, hdumps, before, after ++ [op], by simp, fun op' hop' => ?_⟩
        rcases List.mem_append.mp hop' with hop' | hop'
        · exact hafter op' hop'
        · exact List.mem_singleton.mp hop' ▸ hkeeps

end Latest

/-- The store over a directory is a map. Whatever calls and passes came before,
a lookup finds the payload of the last `put` in force and `None` when there is
none; a call returns unless `json.dumps` refuses the payload; a call about one
key leaves the file of every other as it is, on any tree; and a hash that is none
makes every call raise and leaves the tree alone. -/
theorem cacheStore_refines_map (hfresh : Fresh base t₀) (ops : List (CacheOp φ)) :
    (∀ u h, validAudioHash h = true →
      (∀ payload, IsLatest P ops u h payload →
        CacheStore.get P base (runOps P base t₀ ops) u h = .ok (some (.obj payload.fields))) ∧
      ((¬∃ payload, IsLatest P ops u h payload) →
        CacheStore.get P base (runOps P base t₀ ops) u h = .ok none) ∧
      (∀ payload : Payload φ, ∀ now, payload.Dumps P →
        (CacheStore.put P base (runOps P base t₀ ops) u h (.obj payload.fields) now).1 = .ok ()) ∧
      (CacheStore.delete base (runOps P base t₀ ops) u h).1 = .ok ()) ∧
    (∀ pass : Pass, pass.Faultless →
      (purgeExpired base pass (runOps P base t₀ ops)).error = none) ∧
    (∀ t : FileTree Bytes, ∀ op : CacheOp φ, ∀ u h u' h', op.key = some (u, h) →
      ¬(u' = u ∧ h' = h) →
      (applyOp P base t op).file? (entryPath base u' h') = t.file? (entryPath base u' h') ∧
      CacheStore.get P base (applyOp P base t op) u' h' = CacheStore.get P base t u' h') ∧
    ∀ t : FileTree Bytes, ∀ u h, validAudioHash h = false →
      CacheStore.get P base t u h = .error .invalidHash ∧
      (∀ payload now, CacheStore.put P base t u h payload now = (.error .invalidHash, t)) ∧
      CacheStore.delete base t u h = (.error .invalidHash, t) := by
  have hrun : Refines P base (runOps P base t₀ ops) (ops.foldl (mapOp P) CacheMap.empty) :=
    hfresh.refines.run ops
  refine ⟨fun u h hh => ⟨fun payload hlatest => ?_, fun hnone => ?_, fun payload now hdumps => ?_,
    hrun.layout.delete_isOk hh⟩,
    fun pass hpass => (purgeExpired_faultless hpass hrun.layout.result).1,
    fun t op u h u' h' hop hkey => ?_, fun t u h hh => ?_⟩
  · obtain ⟨at_, hmap⟩ := map_of_isLatest (m := CacheMap.empty) hh hlatest
    rw [hrun.get hh, hmap]
    rfl
  · rw [hrun.get hh]
    cases hmap : ops.foldl (mapOp P) CacheMap.empty u h with
    | none => rfl
    | some e =>
        obtain ⟨fields, at_⟩ := e
        obtain ⟨payload, -, hdumps, before, after, hops, hafter⟩ := isLatest_of_map hh ops hmap
        exact absurd ⟨payload, before, at_, after, hops, hdumps, hafter⟩ hnone
  · obtain ⟨text, htext⟩ := Payload.dumps_iff.mp hdumps
    exact hrun.layout.put_isOk hh htext
  · have hfile : (applyOp P base t op).file? (entryPath base u' h') =
        t.file? (entryPath base u' h') := file?_applyOp_of_key_ne hop hkey
    refine ⟨hfile, ?_⟩
    rw [CacheStore.get, CacheStore.get, hfile]
  · have hh' : ¬validAudioHash h = true := by simp [hh]
    exact ⟨if_neg hh', fun payload now => if_neg hh', if_neg hh'⟩

def samplePayload : Payload ℤ where
  fields := [(Json.Str.ofString "language", .str (Json.Str.ofString "es"))]
  distinct := ⟨List.nodup_singleton _, trivial, trivial⟩

/-- Another user's `delete` of the same audio is of another key. -/
theorem cacheStore_refines_map_sample :
    CacheStore.get Json.wholeInterpreter ["data", "cache"]
      (runOps Json.wholeInterpreter ["data", "cache"] FileTree.empty
        [.put 1 sampleHash samplePayload 0, .delete 2 sampleHash]) 1 sampleHash =
      .ok (some (.obj samplePayload.fields)) := by
  have hlatest : IsLatest Json.wholeInterpreter
      [.put 1 sampleHash samplePayload 0, .delete 2 sampleHash] 1 sampleHash samplePayload := by
    refine ⟨[], 0, [.delete 2 sampleHash], rfl, by decide +kernel, fun op hop => ?_⟩
    rw [List.mem_singleton.mp hop]
    exact fun hkey => absurd hkey.1 (by decide)
  exact ((cacheStore_refines_map (fresh_empty ["data", "cache"]) _).1 1 sampleHash
    (by decide +kernel)).1 samplePayload hlatest

end TranscriptionApi.Pipeline
