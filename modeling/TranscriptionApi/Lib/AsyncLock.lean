import Mathlib.Data.List.Basic

/-!
The lock of an event loop, as the steps its tasks take.

A task that finds the lock taken queues up. Letting go opens the lock and wakes
the first waiter, which takes the lock when the loop next runs it; in between
the lock is open, but a task that asks for it queues up behind the waiter. A
waiter that is cancelled stays in the queue until the loop runs it; it then
leaves and, if the lock is open, wakes the next one.

A woken waiter takes the lock without looking at it again. That this is safe is
`Fair`: only the first waiter is ever woken, and only while the lock is open.
-/

namespace TranscriptionApi.Lib

/-- The future a waiter is suspended on. -/
inductive Waiting where
  | pending
  | woken
  | cancelled
  deriving DecidableEq

structure AsyncLock (τ : Type*) where
  locked : Bool
  waiters : List (τ × Waiting)

namespace AsyncLock

variable {τ : Type*}

def free : AsyncLock τ := ⟨false, []⟩

/-- A task that asks for the lock now gets it at once. -/
def available (l : AsyncLock τ) : Bool := !l.locked && l.waiters.all fun w => w.2 = .cancelled

def take (l : AsyncLock τ) : AsyncLock τ := { l with locked := true }

def enqueue (l : AsyncLock τ) (t : τ) : AsyncLock τ :=
  { l with waiters := l.waiters ++ [(t, .pending)] }

def wakeUpFirst (l : AsyncLock τ) : AsyncLock τ :=
  match l.waiters with
  | (t, .pending) :: rest => { l with waiters := (t, .woken) :: rest }
  | _ => l

def release (l : AsyncLock τ) : AsyncLock τ := wakeUpFirst { l with locked := false }

section Waiters

variable [DecidableEq τ]

/-- What waiter `t` is suspended on. -/
def status (l : AsyncLock τ) (t : τ) : Option Waiting :=
  (l.waiters.find? fun w => w.1 = t).map Prod.snd

def remove (l : AsyncLock τ) (t : τ) : AsyncLock τ :=
  { l with waiters := l.waiters.filter fun w => w.1 ≠ t }

/-- The loop runs a woken waiter. -/
def wakeTake (l : AsyncLock τ) (t : τ) : AsyncLock τ := (l.remove t).take

/-- The loop runs a cancelled waiter. -/
def abandon (l : AsyncLock τ) (t : τ) : AsyncLock τ :=
  if (l.remove t).locked then l.remove t else (l.remove t).wakeUpFirst

/-- Cancel the future of a waiter that is not done. -/
def cancelWaiter (l : AsyncLock τ) (t : τ) : AsyncLock τ :=
  { l with
    waiters := l.waiters.map fun w => if w.1 = t ∧ w.2 = .pending then (w.1, .cancelled) else w }

end Waiters

structure Fair (l : AsyncLock τ) : Prop where
  behind : ∀ w ∈ l.waiters.tail, w.2 ≠ .woken
  unlocked : ∀ w ∈ l.waiters, w.2 = .woken → l.locked = false

theorem fair_free : Fair (free : AsyncLock τ) where
  behind := fun _ hw => absurd hw List.not_mem_nil
  unlocked := fun _ hw => absurd hw List.not_mem_nil

theorem unlocked_of_available {l : AsyncLock τ} (h : l.available = true) : l.locked = false := by
  simp only [available, Bool.and_eq_true, Bool.not_eq_true'] at h
  exact h.1

namespace Fair

variable {l : AsyncLock τ}

theorem take (h : l.available = true) (hl : Fair l) : Fair l.take where
  behind := hl.behind
  unlocked := fun w hw hwoken => by
    simp only [available, Bool.and_eq_true, List.all_eq_true, decide_eq_true_eq] at h
    rw [h.2 w hw] at hwoken
    cases hwoken

theorem enqueue (t : τ) (hl : Fair l) : Fair (l.enqueue t) where
  behind := fun w hw => by
    cases hrows : l.waiters with
    | nil => simp [AsyncLock.enqueue, hrows] at hw
    | cons x rest =>
        have hrest := hl.behind
        simp only [AsyncLock.enqueue, hrows, List.cons_append, List.tail_cons, List.mem_append,
          List.mem_singleton] at hw hrest
        rcases hw with hw | rfl
        · exact hrest w hw
        · exact fun h => nomatch h
  unlocked := fun w hw hwoken => by
    rw [AsyncLock.enqueue, List.mem_append, List.mem_singleton] at hw
    rcases hw with hw | rfl
    · exact hl.unlocked w hw hwoken
    · cases hwoken

/-- Waking needs an open lock. -/
theorem wakeUpFirst (hopen : l.locked = false) (hl : Fair l) : Fair l.wakeUpFirst := by
  unfold AsyncLock.wakeUpFirst
  split
  · rename_i t rest hrows
    refine ⟨?_, fun _ _ _ => hopen⟩
    have hrest := hl.behind
    rw [hrows] at hrest
    exact hrest
  · exact hl

theorem release (hl : Fair l) : Fair l.release := by
  apply wakeUpFirst rfl
  exact ⟨hl.behind, fun _ _ _ => rfl⟩

variable [DecidableEq τ]

theorem status_woken {t : τ} (h : l.status t = some .woken) :
    ∃ w ∈ l.waiters, w.1 = t ∧ w.2 = .woken := by
  obtain ⟨w, hw, hwoken⟩ := Option.map_eq_some_iff.mp h
  exact ⟨w, List.mem_of_find?_eq_some hw, by simpa using List.find?_some hw, hwoken⟩

theorem unlocked_of_woken (hl : Fair l) {t : τ} (h : l.status t = some .woken) :
    l.locked = false := by
  obtain ⟨w, hw, -, hwoken⟩ := status_woken h
  exact hl.unlocked w hw hwoken

theorem remove (t : τ) (hl : Fair l) : Fair (l.remove t) where
  behind := fun w hw => by
    cases hrows : l.waiters with
    | nil => simp [AsyncLock.remove, hrows] at hw
    | cons x rest =>
        have hrest := hl.behind
        simp only [hrows, List.tail_cons] at hrest
        apply hrest w
        simp only [AsyncLock.remove, hrows, List.filter_cons] at hw
        split at hw
        · exact (List.mem_filter.mp hw).1
        · exact (List.mem_filter.mp (List.mem_of_mem_tail hw)).1
  unlocked := fun w hw => hl.unlocked w (List.mem_filter.mp hw).1

/-- After the woken waiter has left, no waiter is woken. -/
theorem wakeTake {t : τ} (h : l.status t = some .woken) (hl : Fair l) : Fair (l.wakeTake t) where
  behind := (hl.remove t).behind
  unlocked := fun w hw hwoken => by
    obtain ⟨w₀, hw₀, rfl, hwoken₀⟩ := status_woken h
    obtain ⟨hmem, hne⟩ := List.mem_filter.mp hw
    have hrest := hl.behind
    cases hrows : l.waiters with
    | nil =>
        rw [hrows] at hmem
        cases hmem
    | cons x rest =>
        simp only [hrows, List.tail_cons, List.mem_cons] at hrest hmem hw₀
        -- both are the first waiter
        have hfirst : ∀ y, y = x ∨ y ∈ rest → y.2 = .woken → y = x := by
          rintro y (rfl | hy) hywoken
          · rfl
          · exact absurd hywoken (hrest y hy)
        rw [hfirst w hmem hwoken, hfirst w₀ hw₀ hwoken₀] at hne
        simp at hne

theorem abandon (t : τ) (hl : Fair l) : Fair (l.abandon t) := by
  unfold AsyncLock.abandon
  split
  · exact hl.remove t
  · rename_i hopen
    exact (hl.remove t).wakeUpFirst (by simpa using hopen)

theorem cancelWaiter (t : τ) (hl : Fair l) : Fair (l.cancelWaiter t) := by
  -- a waiter that is woken afterwards was so before
  have hbefore : ∀ ws : List (τ × Waiting), ∀ w ∈ ws.map (fun w =>
      if w.1 = t ∧ w.2 = .pending then (w.1, Waiting.cancelled) else w), w.2 = .woken → w ∈ ws := by
    intro ws w hw hwoken
    obtain ⟨w₀, hw₀, rfl⟩ := List.mem_map.mp hw
    split at hwoken
    · cases hwoken
    · rename_i hkept
      rw [if_neg hkept]
      exact hw₀
  refine ⟨fun w hw hwoken => ?_, fun w hw hwoken => ?_⟩
  · simp only [AsyncLock.cancelWaiter, ← List.map_tail] at hw
    exact hl.behind w (hbefore _ w hw hwoken) hwoken
  · exact hl.unlocked w (hbefore _ w hw hwoken) hwoken

end Fair

/-! ### Who may hold it -/

@[simp] theorem wakeUpFirst_locked (l : AsyncLock τ) : l.wakeUpFirst.locked = l.locked := by
  unfold wakeUpFirst
  split
  · rfl
  · rfl

@[simp] theorem release_locked (l : AsyncLock τ) : l.release.locked = false :=
  wakeUpFirst_locked _

@[simp] theorem abandon_locked [DecidableEq τ] (l : AsyncLock τ) (t : τ) :
    (l.abandon t).locked = l.locked := by
  unfold abandon
  split
  · rfl
  · exact wakeUpFirst_locked _

@[simp] theorem cancelWaiter_locked [DecidableEq τ] (l : AsyncLock τ) (t : τ) :
    (l.cancelWaiter t).locked = l.locked := rfl

end AsyncLock

end TranscriptionApi.Lib
