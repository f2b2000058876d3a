import Mathlib.Logic.Function.Basic
import TranscriptionApi.Pipeline.Purge

/-!
The store as a map from user and audio hash to the payload last put, with the
time of that put.

The map is the abstract side: `Refines` says which trees hold it. A call, or a
pass of the purge, changes the files of the entries as the map changes, whatever
becomes of the directories on the way. Those only have to stay out of the way of
the entries, which is `Layout`.
-/

namespace TranscriptionApi.Pipeline

open Lib Python

abbrev CacheMap (φ : Type) := Uuid → String → Option (Json.Fields φ × ℤ)

namespace CacheMap

variable {φ : Type}

def empty : CacheMap φ := fun _ _ => none

def set (m : CacheMap φ) (u : Uuid) (h : String) (entry : Option (Json.Fields φ × ℤ)) :
    CacheMap φ :=
  Function.update m u (Function.update (m u) h entry)

/-- The entries that stay. -/
def keep (m : CacheMap φ) (stays : Uuid → String → ℤ → Bool) : CacheMap φ :=
  fun u h => (m u h).filter fun e => stays u h e.2

theorem set_self (m : CacheMap φ) (u : Uuid) (h : String) (entry : Option (Json.Fields φ × ℤ)) :
    m.set u h entry u h = entry := by
  simp [set]

theorem set_of_ne (m : CacheMap φ) {u u' : Uuid} {h h' : String}
    (entry : Option (Json.Fields φ × ℤ)) (hne : ¬(u' = u ∧ h' = h)) :
    m.set u h entry u' h' = m u' h' := by
  unfold set
  by_cases hu : u' = u
  · subst hu
    rw [Function.update_self, Function.update_of_ne fun hh => hne ⟨rfl, hh⟩]
  · rw [Function.update_of_ne hu]

theorem keep_of_none {m : CacheMap φ} {u : Uuid} {h : String} (hm : m u h = none)
    (stays : Uuid → String → ℤ → Bool) : m.keep stays u h = none := by
  rw [keep, hm, Option.filter_none]

theorem keep_of_some {m : CacheMap φ} {u : Uuid} {h : String} {e : Json.Fields φ × ℤ}
    (hm : m u h = some e) (stays : Uuid → String → ℤ → Bool) :
    m.keep stays u h = if stays u h e.2 then some e else none := by
  rw [keep, hm, Option.filter_some]

/-- What is kept was there. -/
theorem of_keep {m : CacheMap φ} {stays : Uuid → String → ℤ → Bool} {u : Uuid} {h : String}
    {e : Json.Fields φ × ℤ} (hkeep : m.keep stays u h = some e) : m u h = some e :=
  (Option.filter_eq_some_iff.mp hkeep).1

end CacheMap

variable {φ : Type} (P : Json.Interpreter φ) (base : Path)

/-- Nothing is in the way of the entries of a cache at `base`. -/
structure Layout (t : FileTree Bytes) : Prop where
  dirs : ∀ u h q, validAudioHash h = true → q <+: entryDir base u h → t.file? q = none
  tmp : ∀ u h, validAudioHash h = true → t.isDir (tmpPath base u h) = false
  result : ∀ q, isExpectedLayout base q = true → t.isDir q = false

/-- No entry has been written yet. -/
structure Fresh (t : FileTree Bytes) : Prop where
  layout : Layout base t
  absent : ∀ u h, validAudioHash h = true → t.file? (entryPath base u h) = none

/-- The tree holds the map. -/
structure Refines (t : FileTree Bytes) (m : CacheMap φ) : Prop where
  layout : Layout base t
  absent : ∀ u h, validAudioHash h = true → m u h = none → t.file? (entryPath base u h) = none
  present : ∀ u h fields at_, validAudioHash h = true → m u h = some (fields, at_) →
    (Json.Value.obj fields).Distinct ∧
      ∃ text, Json.dumps P.floats P.limits (.obj fields) = .ok text ∧
        t.file? (entryPath base u h) = some (encodeUtf8 text, at_)

variable {P base}

theorem isExpectedLayout_entryPath (u : Uuid) (h : String) :
    isExpectedLayout base (entryPath base u h) = true := by
  have happ : entryPath base u h = base ++ [uuidStr u] ++ [h] ++ [resultFilename] := by
    simp [entryPath, entryDir]
  rw [isExpectedLayout, happ, List.dropLast_concat, List.dropLast_concat, List.dropLast_concat]
  simp

/-- A directory of an entry is no place for a result. -/
theorem not_isExpectedLayout_above {u : Uuid} {h : String} {q : Path}
    (hh : validAudioHash h = true) (hq : q <+: entryDir base u h) :
    isExpectedLayout base q = false := by
  rw [Bool.eq_false_iff]
  intro hlayout
  simp only [isExpectedLayout, Bool.and_eq_true, decide_eq_true_eq] at hlayout
  obtain ⟨hlast, hbase⟩ := hlayout
  have happ : entryDir base u h = base ++ [uuidStr u] ++ [h] := by simp [entryDir]
  rw [happ, List.prefix_concat_iff, List.prefix_concat_iff] at hq
  rcases hq with rfl | rfl | hq
  · have hname : h = resultFilename := by simpa using hlast
    have hlength := length_of_validAudioHash hh
    rw [hname] at hlength
    exact absurd hlength (by decide)
  · have hname : uuidStr u = resultFilename := by simpa using hlast
    have hlength := length_uuidStr u
    rw [hname] at hlength
    exact absurd hlength (by decide)
  · have hlength := congrArg List.length hbase
    have hle := hq.length_le
    cases q with
    | nil => cases hlast
    | cons c q =>
        simp only [List.length_dropLast, List.length_cons] at hlength hle
        omega

/-- A layout is kept by what only touches entries and makes their directories. -/
theorem Layout.mono {t t' : FileTree Bytes} (hlayout : Layout base t)
    (hfile : ∀ q, q.length ≤ base.length + 2 → t.file? q = none → t'.file? q = none)
    (hdir : ∀ q, t'.isDir q = true →
      t.isDir q = true ∨ ∃ u h, validAudioHash h = true ∧ q <+: entryDir base u h) :
    Layout base t' where
  dirs := fun u h q hh hq => hfile q (length_above hq) (hlayout.dirs u h q hh hq)
  tmp := by
    intro u h hh
    rw [Bool.eq_false_iff]
    intro hisDir
    rcases hdir _ hisDir with hold | ⟨u', h', hh', hq⟩
    · exact Bool.eq_false_iff.mp (hlayout.tmp u h hh) hold
    · have hlength := length_above hq
      rw [length_tmpPath] at hlength
      omega
  result := by
    intro q hq
    rw [Bool.eq_false_iff]
    intro hisDir
    rcases hdir _ hisDir with hold | ⟨u', h', hh', hprefix⟩
    · exact Bool.eq_false_iff.mp (hlayout.result q hq) hold
    · rw [not_isExpectedLayout_above hh' hprefix] at hq
      cases hq

/-- A cache starts out on an empty disk. -/
theorem fresh_empty (base : Path) : Fresh base FileTree.empty where
  layout :=
    { dirs := fun _ _ q _ _ => FileTree.file?_empty q
      tmp := by
        intro u h hh
        rw [Bool.eq_false_iff, ne_eq, FileTree.isDir_empty]
        simp [tmpPath]
      result := by
        intro q hq
        rw [Bool.eq_false_iff, ne_eq, FileTree.isDir_empty]
        rintro rfl
        simp [isExpectedLayout] at hq }
  absent := fun u h _ => FileTree.file?_empty (entryPath base u h)

theorem Fresh.refines {t : FileTree Bytes} (hfresh : Fresh base t) :
    Refines P base t (CacheMap.empty : CacheMap φ) where
  layout := hfresh.layout
  absent := fun u h hh _ => hfresh.absent u h hh
  present := fun _ _ _ _ _ h => by cases h

/-! ### One step -/

variable {t : FileTree Bytes} {m : CacheMap φ}

/-- What a step has to do to the files of the entries. -/
theorem Refines.step {t' : FileTree Bytes} {m' : CacheMap φ} (hr : Refines P base t m)
    (hlayout : Layout base t')
    (hentry : ∀ u h, validAudioHash h = true →
      (m' u h = m u h ∧ t'.file? (entryPath base u h) = t.file? (entryPath base u h)) ∨
      (m' u h = none ∧ t'.file? (entryPath base u h) = none) ∨
      ∃ fields at_ text, m' u h = some (fields, at_) ∧ (Json.Value.obj fields).Distinct ∧
        Json.dumps P.floats P.limits (.obj fields) = .ok text ∧
        t'.file? (entryPath base u h) = some (encodeUtf8 text, at_)) :
    Refines P base t' m' where
  layout := hlayout
  absent := by
    intro u h hh hm
    rcases hentry u h hh with ⟨hmap, hfile⟩ | ⟨-, hfile⟩ | ⟨fields, at_, text, hmap, -⟩
    · rw [hfile]
      exact hr.absent u h hh (hmap ▸ hm)
    · exact hfile
    · rw [hmap] at hm
      cases hm
  present := by
    intro u h fields at_ hh hm
    rcases hentry u h hh with ⟨hmap, hfile⟩ | ⟨hmap, -⟩ |
      ⟨fields', at', text, hmap, hd, htext, hfile⟩
    · rw [hfile]
      exact hr.present u h fields at_ hh (hmap ▸ hm)
    · rw [hmap] at hm
      cases hm
    · rw [hmap] at hm
      cases hm
      exact ⟨hd, text, htext, hfile⟩

theorem Layout.put {u : Uuid} {h : String} {payload : Json.Value φ} {now : ℤ}
    (hlayout : Layout base t) :
    Layout base (CacheStore.put P base t u h payload now).2 := by
  by_cases hh : validAudioHash h = true
  · refine hlayout.mono (fun q hlength hq => ?_) fun q hq => ?_
    · rw [file?_put_of_ne, hq]
      · rintro rfl
        rw [length_entryPath] at hlength
        omega
      · rintro rfl
        rw [length_tmpPath] at hlength
        omega
    · exact (isDir_put hq).imp_right fun hprefix => ⟨u, h, hh, hprefix⟩
  · rw [CacheStore.put, if_neg hh]
    exact hlayout

theorem Layout.delete {u : Uuid} {h : String} (hlayout : Layout base t) :
    Layout base (CacheStore.delete base t u h).2 := by
  refine hlayout.mono (fun q hlength hq => ?_) fun q hq => .inl (isDir_delete hq)
  rw [file?_delete_of_ne, hq]
  rintro rfl
  rw [length_entryPath] at hlength
  omega

theorem Layout.purge {pass : Pass} (hlayout : Layout base t) :
    Layout base (purgeExpired base pass t).tree := by
  have hpurged := purged_purgeExpired base pass t
  refine hlayout.mono (fun q _ hq => ?_) fun q hq => .inl (hpurged.isDir q hq)
  rw [hpurged.file? q, hq, ite_self]

/-- Under a layout, only `json.dumps` makes a `put` fail. -/
theorem Layout.put_isOk {u : Uuid} {h : String} {payload : Json.Value φ} {now : ℤ}
    {text : List Char} (hlayout : Layout base t) (hh : validAudioHash h = true)
    (htext : Json.dumps P.floats P.limits payload = .ok text) :
    (CacheStore.put P base t u h payload now).1 = .ok () := by
  rw [put_fst hh (hlayout.dirs u h · hh) (hlayout.result _ (isExpectedLayout_entryPath u h)), htext]
  exact if_neg (Bool.eq_false_iff.mp (hlayout.tmp u h hh))

/-- `delete` does not fail either. -/
theorem Layout.delete_isOk {u : Uuid} {h : String} (hlayout : Layout base t)
    (hh : validAudioHash h = true) : (CacheStore.delete base t u h).1 = .ok () := by
  have hdir := hlayout.result _ (isExpectedLayout_entryPath u h)
  rw [CacheStore.delete, if_pos hh]
  cases hfile : t.file? (entryPath base u h) with
  | none =>
      rw [FileTree.unlink_noEntry hdir]
      intro q hq
      rcases (List.prefix_concat_iff).mp hq with rfl | hq
      · exact hfile
      · exact hlayout.dirs u h q hh hq
  | some f =>
      obtain ⟨t₁, hunlink⟩ := FileTree.unlink_isOk hfile
      rw [hunlink]
      simp only
      split
      · rfl
      · rfl

theorem Refines.put {u : Uuid} {h : String} {fields : Json.Fields φ} {now : ℤ}
    (hr : Refines P base t m) (hfields : (Json.Value.obj fields).Distinct)
    (hok : (CacheStore.put P base t u h (.obj fields) now).1 = .ok ()) :
    Refines P base (CacheStore.put P base t u h (.obj fields) now).2
      (m.set u h (some (fields, now))) := by
  refine hr.step hr.layout.put fun u' h' hh' => ?_
  by_cases hkey : u' = u ∧ h' = h
  · obtain ⟨rfl, rfl⟩ := hkey
    obtain ⟨-, text, htext, hfile⟩ := put_ok hok
    exact .inr (.inr ⟨fields, now, text, m.set_self .., hfields, htext,
      (hfile _).trans (if_pos rfl)⟩)
  · refine .inl ⟨m.set_of_ne _ hkey, file?_put_of_ne ?_ entryPath_ne_tmpPath⟩
    exact fun heq => hkey (entryPath_injective heq)

theorem Refines.put_error {u : Uuid} {h : String} {payload : Json.Value φ} {now : ℤ}
    {e : CacheError} (hr : Refines P base t m)
    (herror : (CacheStore.put P base t u h payload now).1 = .error e) :
    Refines P base (CacheStore.put P base t u h payload now).2 m := by
  refine hr.step hr.layout.put fun u' h' hh' => .inl ⟨rfl, ?_⟩
  by_cases hkey : u' = u ∧ h' = h
  · obtain ⟨rfl, rfl⟩ := hkey
    exact file?_put_error herror
  · exact file?_put_of_ne (fun heq => hkey (entryPath_injective heq)) entryPath_ne_tmpPath

theorem Refines.delete {u : Uuid} {h : String} (hr : Refines P base t m)
    (hh : validAudioHash h = true) :
    Refines P base (CacheStore.delete base t u h).2 (m.set u h none) := by
  refine hr.step hr.layout.delete fun u' h' hh' => ?_
  by_cases hkey : u' = u ∧ h' = h
  · obtain ⟨rfl, rfl⟩ := hkey
    exact .inr (.inl ⟨m.set_self .., file?_delete_self hh⟩)
  · exact .inl ⟨m.set_of_ne _ hkey,
      file?_delete_of_ne fun heq => hkey (entryPath_injective heq)⟩

/-- A pass takes the entries it removes out of the map. -/
theorem Refines.purge {pass : Pass} (hr : Refines P base t m) :
    Refines P base (purgeExpired base pass t).tree
      (m.keep fun u h _ => !(purgeExpired base pass t).removed.contains (entryPath base u h)) := by
  have hpurged := purged_purgeExpired base pass t
  refine hr.step hr.layout.purge fun u h hh => ?_
  rw [hpurged.file?]
  by_cases hgone : entryPath base u h ∈ (purgeExpired base pass t).removed
  · refine .inr (.inl ⟨?_, if_pos hgone⟩)
    cases hm : m u h with
    | none => exact CacheMap.keep_of_none hm _
    | some e => simp [CacheMap.keep_of_some hm, hgone]
  · refine .inl ⟨?_, if_neg hgone⟩
    cases hm : m u h with
    | none => exact CacheMap.keep_of_none hm _
    | some e => simp [CacheMap.keep_of_some hm, hgone]

/-- What a lookup finds. -/
theorem Refines.get {u : Uuid} {h : String} (hr : Refines P base t m)
    (hh : validAudioHash h = true) :
    CacheStore.get P base t u h = .ok ((m u h).map fun e => .obj e.1) := by
  rw [CacheStore.get, if_pos hh]
  cases hm : m u h with
  | none =>
      rw [hr.absent u h hh hm]
      rfl
  | some e =>
      obtain ⟨hfields, text, htext, hfile⟩ := hr.present u h e.1 e.2 hh hm
      rw [hfile]
      exact readEntry_dumps htext hfields

end TranscriptionApi.Pipeline
