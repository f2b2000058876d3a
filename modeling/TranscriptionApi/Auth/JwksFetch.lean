import Mathlib.Logic.Function.Basic
import TranscriptionApi.Auth.Callback
import TranscriptionApi.Lib.AsyncLock
import TranscriptionApi.Lib.Transition

/-!
`fetch_jwks` with any number of callers at once.

A caller looks at the cache, queues up for `_JWKS_FETCH_LOCK`, looks again and
sends its request, all in one turn of the event loop where it does not have to
wait; a turn reads the clock once, and the clock never goes back. A forced caller
looks at neither. Whoever sends a request holds the lock until the request ends.

The requests are written down in a log, the last one first, with what they found
in the cache and what they left there; nothing reads the log but the statements
about it. What they rest on is that the cache holds the last answer that came
back, so that a caller who finds it stale comes late enough after every answer
before. This fails for an answer that is `null`: it goes into `_JWKS_CACHE`,
where it means that there is nothing.
-/

namespace TranscriptionApi.Auth.OAuth

open Lib Lib.Json

/-- How a request ended. -/
structure JwksEnd (φ : Type) where
  at_ : ℤ
  /-- what its caller got; the error `none` is `CancelledError` -/
  result : Except (Option Raised) (Value φ)
  /-- the cache afterwards -/
  left : JwksCache φ

/-- One `GET` of the key set. -/
structure JwksRequest (τ φ : Type) where
  caller : τ
  forced : Bool
  startedAt : ℤ
  /-- the cache at the start -/
  found : JwksCache φ
  /-- `none` while it is in flight -/
  ended : Option (JwksEnd φ)

inductive JwksCaller (φ : Type) where
  | absent
  /-- in the queue of the lock -/
  | waiting (forced cancelled : Bool)
  /-- holds the lock, its request is in flight -/
  | fetching (forced : Bool)
  | returned (forced : Bool) (jwks : Value φ) (at_ : ℤ)
  /-- `none` is `CancelledError` -/
  | raised (e : Option Raised)

structure JwksWorld (τ φ : Type) where
  clock : ℤ
  cache : JwksCache φ
  lock : AsyncLock τ
  callers : τ → JwksCaller φ
  requests : List (JwksRequest τ φ)

inductive JwksAction (τ φ : Type) where
  | call (t : τ) (forceRefresh : Bool)
  /-- the loop runs a waiter that was woken -/
  | wake (t : τ)
  | cancel (t : τ)
  /-- the loop runs a waiter that was cancelled -/
  | abandon (t : τ)
  | answer (t : τ) (answer : HttpAnswer φ)
  /-- `CancelledError` leaves the request -/
  | interrupt (t : τ)

structure JwksEvent (τ φ : Type) where
  now : ℤ
  action : JwksAction τ φ

section Step

variable {τ φ : Type} [DecidableEq τ]

def JwksWorld.setCaller (s : JwksWorld τ φ) (t : τ) (c : JwksCaller φ) : JwksWorld τ φ :=
  { s with callers := Function.update s.callers t c }

theorem JwksWorld.callers_setCaller (s : JwksWorld τ φ) (t : τ) (c : JwksCaller φ) :
    (s.setCaller t c).callers t = c := Function.update_self ..

/-- `return _JWKS_CACHE`. -/
def returnCached (s : JwksWorld τ φ) (t : τ) (forced : Bool) : JwksWorld τ φ :=
  s.setCaller t (.returned forced s.cache.jwks s.clock)

/-- The `async with` block up to the request. -/
def underLock (s : JwksWorld τ φ) (t : τ) (forced : Bool) : JwksWorld τ φ :=
  if !forced && cacheIsFresh s.clock s.cache then
    { returnCached s t forced with lock := s.lock.release }
  else
    { s.setCaller t (.fetching forced) with
      requests := ⟨t, forced, s.clock, s.cache, none⟩ :: s.requests }

def enterFetch (s : JwksWorld τ φ) (t : τ) (forced : Bool) : JwksWorld τ φ :=
  if !forced && cacheIsFresh s.clock s.cache then returnCached s t forced
  else if s.lock.available then underLock { s with lock := s.lock.take } t forced
  else { s.setCaller t (.waiting forced false) with lock := s.lock.enqueue t }

/-- The log, where the request of `t` has ended. -/
def endRequest (requests : List (JwksRequest τ φ)) (t : τ) (e : JwksEnd φ) :
    List (JwksRequest τ φ) :=
  requests.map fun r => if r.caller = t ∧ r.ended.isNone then { r with ended := some e } else r

/-- The `async with` block from the answer on: only an answer that is read to
the end is stored. -/
def leaveFetch (s : JwksWorld τ φ) (t : τ) (forced : Bool)
    (result : Except (Option Raised) (Value φ)) : JwksWorld τ φ :=
  match result with
  | .ok jwks =>
      { s.setCaller t (.returned forced jwks s.clock) with
        cache := ⟨jwks, s.clock⟩
        lock := s.lock.release
        requests := endRequest s.requests t ⟨s.clock, .ok jwks, ⟨jwks, s.clock⟩⟩ }
  | .error e =>
      { s.setCaller t (.raised e) with
        lock := s.lock.release
        requests := endRequest s.requests t ⟨s.clock, .error e, s.cache⟩ }

def fetchAction (s : JwksWorld τ φ) : JwksAction τ φ → Option (JwksWorld τ φ)
  | .call t forced =>
      match s.callers t with
      | .absent => some (enterFetch s t forced)
      | _ => none
  | .wake t =>
      match s.callers t with
      | .waiting forced false =>
          if s.lock.status t = some .woken then
            some (underLock { s with lock := s.lock.wakeTake t } t forced)
          else none
      | _ => none
  | .cancel t =>
      match s.callers t with
      | .waiting forced false =>
          some { s.setCaller t (.waiting forced true) with lock := s.lock.cancelWaiter t }
      | _ => none
  | .abandon t =>
      match s.callers t with
      | .waiting _ true => some { s.setCaller t (.raised none) with lock := s.lock.abandon t }
      | _ => none
  | .answer t a =>
      match s.callers t with
      | .fetching forced =>
          some (leaveFetch s t forced ((readJson .idTokenInvalid a).mapError some))
      | _ => none
  | .interrupt t =>
      match s.callers t with
      | .fetching forced => some (leaveFetch s t forced (.error none))
      | _ => none

def jwksFetches : System (JwksWorld τ φ) (JwksEvent τ φ) where
  step := fun s e =>
    if s.clock ≤ e.now then fetchAction { s with clock := e.now } e.action else none

/-- After the import of the module. -/
def jwksStart (clock : ℤ) : JwksWorld τ φ where
  clock := clock
  cache := ⟨.null, 0⟩
  lock := .free
  callers := fun _ => .absent
  requests := []

end Step

/-! ### What is asked of the requests -/

section Contract

variable {τ φ : Type}

/-- An answer that was stored. -/
def StoredAt (requests : List (JwksRequest τ φ)) (jwks : Value φ) (at_ : ℤ) : Prop :=
  ∃ r ∈ requests, ∃ e, r.ended = some e ∧ e.result = .ok jwks ∧ e.at_ = at_

/-- The caller's own request failed. -/
def FailedWith (requests : List (JwksRequest τ φ)) (t : τ) (x : Raised) : Prop :=
  ∃ r ∈ requests, r.caller = t ∧ ∃ e, r.ended = some e ∧ e.result = .error (some x)

structure FetchContract (s : JwksWorld τ φ) : Prop where
  single : (s.requests.filter fun r => r.ended.isNone).length ≤ 1
  /-- of two requests of non-forced callers, the first one answered -/
  spaced : s.requests.Pairwise fun later earlier => later.forced = false → earlier.forced = false →
    ∀ e jwks, earlier.ended = some e → e.result = .ok jwks →
      earlier.startedAt + seconds jwksTtlSeconds ≤ later.startedAt
  /-- a value that is returned is the answer to a request -/
  returned : ∀ t jwks now, s.callers t = .returned false jwks now →
    ∃ at_, StoredAt s.requests jwks at_ ∧ at_ ≤ now ∧ now - at_ < seconds jwksTtlSeconds
  kept : ∀ r ∈ s.requests, ∀ e x, r.ended = some e → e.result = .error x → e.left = r.found
  /-- an error other than `CancelledError` is the one of the caller's own request -/
  raised : ∀ t x, s.callers t = .raised (some x) → FailedWith s.requests t x

/-- The provider answers `null`, with a status that no branch refuses. -/
def AnswersNull (e : JwksEvent τ φ) : Prop :=
  ∃ t status, e.action = .answer t (.response status (some .null)) ∧ status < 400

end Contract

section Moves

variable {τ φ : Type} [DecidableEq τ] {s s' : JwksWorld τ φ} {e : JwksEvent τ φ}

/-! ### What a turn can change -/

/-- The holder of the lock is the caller whose request is in flight, and that
request is the last one. -/
structure Guarded (s : JwksWorld τ φ) : Prop where
  fair : s.lock.Fair
  behind : ∀ r ∈ s.requests.tail, r.ended.isSome = true
  flight : ∀ t forced, s.callers t = .fetching forced ↔
    ∃ r ∈ s.requests.head?, r.ended = none ∧ r.caller = t ∧ r.forced = forced
  holds : ∀ t forced, s.callers t = .fetching forced → s.lock.locked = true
  found : ∀ r ∈ s.requests.head?, r.ended = none → r.found = s.cache

/-- A turn serves a caller from the cache, moves it in or out of the queue,
starts its request, or ends it. -/
inductive FetchMove (s : JwksWorld τ φ) (e : JwksEvent τ φ) : JwksWorld τ φ → Prop
  | served (t : τ) (lock : AsyncLock τ) (hc : ∀ forced, s.callers t ≠ .fetching forced)
      (hfresh : cacheIsFresh e.now s.cache = true) (hfair : lock.Fair)
      (hlocked : lock.locked = s.lock.locked) :
      FetchMove s e { s.setCaller t (.returned false s.cache.jwks e.now) with clock := e.now, lock }
  | queued (t : τ) (forced cancelled : Bool) (lock : AsyncLock τ)
      (hc : ∀ forced, s.callers t ≠ .fetching forced) (hfair : lock.Fair)
      (hlocked : lock.locked = s.lock.locked) :
      FetchMove s e { s.setCaller t (.waiting forced cancelled) with clock := e.now, lock }
  | left (t : τ) (lock : AsyncLock τ) (hc : ∀ forced, s.callers t ≠ .fetching forced)
      (hfair : lock.Fair) (hlocked : lock.locked = s.lock.locked) :
      FetchMove s e { s.setCaller t (.raised none) with clock := e.now, lock }
  | started (t : τ) (forced : Bool) (lock : AsyncLock τ) (hopen : s.lock.locked = false)
      (hneeds : forced = false → cacheIsFresh e.now s.cache = false) (hfair : lock.Fair)
      (hlocked : lock.locked = true) :
      FetchMove s e { s.setCaller t (.fetching forced) with
        clock := e.now, lock, requests := ⟨t, forced, e.now, s.cache, none⟩ :: s.requests }
  | stored (t : τ) (forced : Bool) (a : HttpAnswer φ) (jwks : Value φ)
      (hc : s.callers t = .fetching forced) (haction : e.action = .answer t a)
      (hread : readJson .idTokenInvalid a = .ok jwks) :
      FetchMove s e { s.setCaller t (.returned forced jwks e.now) with
        clock := e.now, cache := ⟨jwks, e.now⟩, lock := s.lock.release
        requests := endRequest s.requests t ⟨e.now, .ok jwks, ⟨jwks, e.now⟩⟩ }
  | failed (t : τ) (forced : Bool) (x : Option Raised) (hc : s.callers t = .fetching forced) :
      FetchMove s e { s.setCaller t (.raised x) with
        clock := e.now, lock := s.lock.release
        requests := endRequest s.requests t ⟨e.now, .error x, s.cache⟩ }

/-- The turn of a caller that has just taken the lock. -/
theorem fetchMove_underLock {t : τ} (forced : Bool) {lock : AsyncLock τ}
    (hc : ∀ forced, s.callers t ≠ .fetching forced) (hopen : s.lock.locked = false)
    (hfair : lock.Fair) (hlocked : lock.locked = true) :
    FetchMove s e (underLock { s with clock := e.now, lock := lock } t forced) := by
  unfold underLock
  split
  · rename_i hfresh
    obtain ⟨hforced, hfresh⟩ := Bool.and_eq_true_iff.mp hfresh
    obtain rfl : forced = false := by simpa using hforced
    exact .served t lock.release hc hfresh hfair.release
      ((AsyncLock.release_locked lock).trans hopen.symm)
  · rename_i hstale
    refine .started t forced lock hopen (fun hforced => ?_) hfair hlocked
    subst hforced
    simpa using hstale

theorem step_fetchMove (h : Guarded s) (hstep : jwksFetches.step s e = some s') :
    s.clock ≤ e.now ∧ FetchMove s e s' := by
  simp only [jwksFetches] at hstep
  split at hstep
  · rename_i hclock
    refine ⟨hclock, ?_⟩
    unfold fetchAction at hstep
    split at hstep
    · rename_i t forced _
      split at hstep
      · rename_i habsent
        cases hstep
        have hc : ∀ forced, s.callers t ≠ .fetching forced := fun forced hc =>
          nomatch habsent.symm.trans hc
        unfold enterFetch
        split
        · rename_i hfresh
          obtain ⟨hforced, hfresh⟩ := Bool.and_eq_true_iff.mp hfresh
          obtain rfl : forced = false := by simpa using hforced
          exact .served t s.lock hc hfresh h.fair rfl
        · split
          · rename_i havailable
            exact fetchMove_underLock forced hc (AsyncLock.unlocked_of_available havailable)
              (h.fair.take havailable) rfl
          · exact .queued t forced false _ hc (h.fair.enqueue t) rfl
      · cases hstep
    · rename_i t _
      split at hstep
      · rename_i forced hwaiting
        split at hstep
        · rename_i hwoken
          cases hstep
          exact fetchMove_underLock forced (fun forced hc => nomatch hwaiting.symm.trans hc)
            (h.fair.unlocked_of_woken hwoken) (h.fair.wakeTake hwoken) rfl
        · cases hstep
      · cases hstep
    · rename_i t _
      split at hstep
      · rename_i forced hwaiting
        cases hstep
        exact .queued t forced true _ (fun forced hc => nomatch hwaiting.symm.trans hc)
          (h.fair.cancelWaiter t) rfl
      · cases hstep
    · rename_i t _
      split at hstep
      · rename_i forced hwaiting
        cases hstep
        exact .left t _ (fun forced hc => nomatch hwaiting.symm.trans hc) (h.fair.abandon t)
          (AsyncLock.abandon_locked s.lock t)
      · cases hstep
    · rename_i t a haction
      split at hstep
      · rename_i forced hfetching
        cases hstep
        cases hread : readJson .idTokenInvalid a with
        | error x => exact .failed t forced (some x) hfetching
        | ok jwks => exact .stored t forced a jwks hfetching haction hread
      · cases hstep
    · rename_i t _
      split at hstep
      · rename_i forced hfetching
        cases hstep
        exact .failed t forced none hfetching
      · cases hstep
  · cases hstep

/-! ### One request at a time -/

/-- The request of a caller that is fetching is the last one, and its end
changes nothing else in the log. -/
theorem Guarded.endRequest (h : Guarded s) {t : τ} {forced : Bool}
    (hc : s.callers t = .fetching forced) (e : JwksEnd φ) :
    ∃ r rest, s.requests = r :: rest ∧ r.caller = t ∧ r.forced = forced ∧ r.ended = none ∧
      r.found = s.cache ∧ endRequest s.requests t e = { r with ended := some e } :: rest := by
  obtain ⟨r, hr, hflight, rfl, rfl⟩ := (h.flight t forced).mp hc
  cases hrequests : s.requests with
  | nil =>
      rw [hrequests] at hr
      cases hr
  | cons r' rest =>
      have hfound := h.found
      have hbehind := h.behind
      rw [hrequests] at hr hbehind hfound
      cases hr
      refine ⟨r, rest, rfl, rfl, rfl, hflight, hfound r rfl hflight, ?_⟩
      rw [OAuth.endRequest, List.map_cons, if_pos ⟨rfl, by rw [hflight]; rfl⟩]
      refine congrArg (_ :: ·) ((List.map_congr_left fun x hx => ?_).trans (List.map_id rest))
      refine if_neg fun hx' => ?_
      have hended : x.ended.isSome = true := hbehind x hx
      rw [Option.isNone_iff_eq_none.mp hx'.2] at hended
      cases hended

omit [DecidableEq τ] in
/-- Nobody fetches while the lock is open. -/
theorem Guarded.ended_of_open (h : Guarded s) (hopen : s.lock.locked = false) :
    (∀ t forced, s.callers t ≠ .fetching forced) ∧ ∀ r ∈ s.requests, r.ended.isSome = true := by
  have hnone : ∀ t forced, s.callers t ≠ .fetching forced := fun t forced hc =>
    absurd ((h.holds t forced hc).symm.trans hopen) (by decide)
  refine ⟨hnone, fun r hr => ?_⟩
  cases hrequests : s.requests with
  | nil =>
      rw [hrequests] at hr
      cases hr
  | cons r' rest =>
      have hbehind := h.behind
      have hflight := h.flight
      rw [hrequests] at hr hbehind hflight
      rcases List.mem_cons.mp hr with rfl | hr
      · cases hended : r.ended with
        | none =>
            exact absurd ((hflight r.caller r.forced).mpr ⟨r, rfl, hended, rfl, rfl⟩) (hnone _ _)
        | some e => rfl
      · exact hbehind r hr

/-- Neither before nor after the turn is the caller fetching. -/
theorem Guarded.moved (h : Guarded s) {t : τ} {c : JwksCaller φ} {lock : AsyncLock τ} (now : ℤ)
    (hc : ∀ forced, s.callers t ≠ .fetching forced) (hc' : ∀ forced, c ≠ .fetching forced)
    (hfair : lock.Fair) (hlocked : lock.locked = s.lock.locked) :
    Guarded { s.setCaller t c with clock := now, lock } := by
  have hiff (u : τ) (forced : Bool) :
      Function.update s.callers t c u = .fetching forced ↔ s.callers u = .fetching forced := by
    by_cases hu : u = t
    · subst hu
      rw [Function.update_self]
      exact ⟨fun heq => absurd heq (hc' forced), fun heq => absurd heq (hc forced)⟩
    · rw [Function.update_of_ne hu]
  exact ⟨hfair, h.behind, fun u forced => (hiff u forced).trans (h.flight u forced),
    fun u forced hu => hlocked.trans (h.holds u forced ((hiff u forced).mp hu)), h.found⟩

theorem Guarded.ended (h : Guarded s) {t : τ} {forced : Bool} {c : JwksCaller φ}
    (hc : s.callers t = .fetching forced) (hc' : ∀ forced, c ≠ .fetching forced) (now : ℤ)
    (cache : JwksCache φ) (e : JwksEnd φ) :
    Guarded { s.setCaller t c with
      clock := now, cache := cache, lock := s.lock.release
      requests := OAuth.endRequest s.requests t e } := by
  obtain ⟨r, rest, hrequests, rfl, rfl, hflight, -, hended⟩ := h.endRequest hc e
  have hnone (u : τ) (forced : Bool) :
      Function.update s.callers r.caller c u ≠ .fetching forced := by
    by_cases hu : u = r.caller
    · subst hu
      rw [Function.update_self]
      exact hc' forced
    · rw [Function.update_of_ne hu]
      intro hfetching
      obtain ⟨r', hr', -, rfl, -⟩ := (h.flight u forced).mp hfetching
      rw [hrequests] at hr'
      cases hr'
      exact hu rfl
  have hbehind := h.behind
  rw [hrequests] at hbehind
  refine ⟨h.fair.release, ?_, fun u forced => ⟨fun hu => absurd hu (hnone u forced), ?_⟩,
    fun u forced hu => absurd hu (hnone u forced), ?_⟩
  · show ∀ x ∈ (OAuth.endRequest s.requests r.caller e).tail, _
    rw [hended]
    exact hbehind
  · rintro ⟨x, hx, hx', -⟩
    have hx : x ∈ (OAuth.endRequest s.requests r.caller e).head? := hx
    rw [hended] at hx
    cases hx
    cases hx'
  · intro x hx hx'
    have hx : x ∈ (OAuth.endRequest s.requests r.caller e).head? := hx
    rw [hended] at hx
    cases hx
    cases hx'

theorem guarded_step (h : Guarded s) (hstep : jwksFetches.step s e = some s') : Guarded s' := by
  obtain ⟨-, hmove⟩ := step_fetchMove h hstep
  cases hmove with
  | served t lock hc hfresh hfair hlocked =>
      exact h.moved e.now hc (fun _ heq => nomatch heq) hfair hlocked
  | queued t forced cancelled lock hc hfair hlocked =>
      exact h.moved e.now hc (fun _ heq => nomatch heq) hfair hlocked
  | left t lock hc hfair hlocked =>
      exact h.moved e.now hc (fun _ heq => nomatch heq) hfair hlocked
  | started t forced lock hopen hneeds hfair hlocked =>
      obtain ⟨hnone, hended⟩ := h.ended_of_open hopen
      refine ⟨hfair, hended, fun u forced' => ?_, fun _ _ _ => hlocked, ?_⟩
      · show Function.update s.callers t (.fetching forced) u = .fetching forced' ↔ _
        by_cases hu : u = t
        · subst hu
          rw [Function.update_self]
          constructor
          · rintro ⟨⟩
            exact ⟨_, rfl, rfl, rfl, rfl⟩
          · rintro ⟨r, hr, -, -, rfl⟩
            cases hr
            rfl
        · rw [Function.update_of_ne hu]
          refine ⟨fun hc => absurd hc (hnone u forced'), ?_⟩
          rintro ⟨r, hr, -, rfl, -⟩
          cases hr
          exact absurd rfl hu
      · rintro r hr -
        cases hr
        rfl
  | stored t forced a jwks hc haction hread =>
      exact h.ended (c := .returned forced jwks e.now) hc (fun _ heq => nomatch heq) e.now _ _
  | failed t forced x hc =>
      exact h.ended (c := .raised x) hc (fun _ heq => nomatch heq) e.now s.cache _

omit [DecidableEq τ] in
theorem guarded_start (clock : ℤ) : Guarded (jwksStart clock : JwksWorld τ φ) where
  fair := AsyncLock.fair_free
  behind := fun _ hr => absurd hr List.not_mem_nil
  flight := fun t forced => by
    constructor
    · exact fun hc => nomatch hc
    · rintro ⟨r, hr, -⟩
      cases hr
  holds := fun _ _ hc => nomatch hc
  found := fun _ hr => nomatch hr

/-! ### The log and the cache -/

/-- The cache is the last answer of the log. -/
structure Logged (s : JwksWorld τ φ) : Prop where
  started : ∀ r ∈ s.requests, r.startedAt ≤ s.clock
  ended : ∀ r ∈ s.requests, ∀ e, r.ended = some e → r.startedAt ≤ e.at_ ∧ e.at_ ≤ s.clock
  latest : ∀ jwks at_, StoredAt s.requests jwks at_ → at_ ≤ s.cache.cachedAt
  source : s.cache = ⟨.null, 0⟩ ∨ StoredAt s.requests s.cache.jwks s.cache.cachedAt
  returned : ∀ t jwks now, s.callers t = .returned false jwks now →
    ∃ at_, StoredAt s.requests jwks at_ ∧ at_ ≤ now ∧ now - at_ < seconds jwksTtlSeconds
  raised : ∀ t x, s.callers t = .raised (some x) → FailedWith s.requests t x
  kept : ∀ r ∈ s.requests, ∀ e x, r.ended = some e → e.result = .error x → e.left = r.found

/-- Ended requests stay in the log. -/
def Keeps (requests requests' : List (JwksRequest τ φ)) : Prop :=
  ∀ r ∈ requests, ∀ e, r.ended = some e → r ∈ requests'

section Keeps

omit [DecidableEq τ]

variable {requests requests' : List (JwksRequest τ φ)}

theorem Keeps.storedAt (h : Keeps requests requests') {jwks : Value φ} {at_ : ℤ} :
    StoredAt requests jwks at_ → StoredAt requests' jwks at_
  | ⟨r, hr, e, hended, hspec⟩ => ⟨r, h r hr e hended, e, hended, hspec⟩

theorem Keeps.failedWith (h : Keeps requests requests') {t : τ} {x : Raised} :
    FailedWith requests t x → FailedWith requests' t x
  | ⟨r, hr, hcaller, e, hended, hresult⟩ => ⟨r, h r hr e hended, hcaller, e, hended, hresult⟩

end Keeps

/-- Another caller keeps what it has got. -/
theorem Logged.callers (h : Logged s) {requests' : List (JwksRequest τ φ)}
    (hkeeps : Keeps s.requests requests') {t : τ} {c : JwksCaller φ}
    (hreturned : ∀ jwks now, c = .returned false jwks now → ∃ at_,
      StoredAt requests' jwks at_ ∧ at_ ≤ now ∧ now - at_ < seconds jwksTtlSeconds)
    (hraised : ∀ x, c = .raised (some x) → FailedWith requests' t x) :
    (∀ u jwks now, Function.update s.callers t c u = .returned false jwks now → ∃ at_,
      StoredAt requests' jwks at_ ∧ at_ ≤ now ∧ now - at_ < seconds jwksTtlSeconds) ∧
    ∀ u x, Function.update s.callers t c u = .raised (some x) → FailedWith requests' u x := by
  constructor
  · intro u jwks now hu
    by_cases hut : u = t
    · subst hut
      rw [Function.update_self] at hu
      exact hreturned jwks now hu
    · rw [Function.update_of_ne hut] at hu
      obtain ⟨at_, hstored, hspec⟩ := h.returned u jwks now hu
      exact ⟨at_, hkeeps.storedAt hstored, hspec⟩
  · intro u x hu
    by_cases hut : u = t
    · subst hut
      rw [Function.update_self] at hu
      exact hraised x hu
    · rw [Function.update_of_ne hut] at hu
      exact hkeeps.failedWith (h.raised u x hu)

/-- A turn that sends no request and ends none. -/
theorem Logged.moved (h : Logged s) {now : ℤ} (hclock : s.clock ≤ now) {t : τ}
    {c : JwksCaller φ} (lock : AsyncLock τ)
    (hreturned : ∀ jwks now, c = .returned false jwks now → ∃ at_,
      StoredAt s.requests jwks at_ ∧ at_ ≤ now ∧ now - at_ < seconds jwksTtlSeconds)
    (hraised : ∀ x, c ≠ .raised (some x)) :
    Logged { s.setCaller t c with clock := now, lock } := by
  obtain ⟨hreturned', hraised'⟩ := h.callers (t := t) (c := c) (fun r hr _ _ => hr) hreturned
    fun x hx => absurd hx (hraised x)
  refine ⟨fun r hr => Int.le_trans (h.started r hr) hclock, fun r hr e he => ?_, h.latest, h.source,
    hreturned', hraised', h.kept⟩
  exact ⟨(h.ended r hr e he).1, Int.le_trans (h.ended r hr e he).2 hclock⟩

theorem cacheIsFresh_iff {now : ℤ} {cache : JwksCache φ} : cacheIsFresh now cache = true ↔
    cache.jwks ≠ .null ∧ now - cache.cachedAt < seconds jwksTtlSeconds := by
  unfold cacheIsFresh
  split
  · rename_i hnull
    simp [hnull]
  · rename_i hnull
    rw [decide_eq_true_eq]
    exact ⟨fun hyoung => ⟨hnull, hyoung⟩, And.right⟩

omit [DecidableEq τ] in
theorem Logged.storedAt_le (h : Logged s) {jwks : Value φ} {at_ : ℤ}
    (hstored : StoredAt s.requests jwks at_) : at_ ≤ s.clock := by
  obtain ⟨r, hr, e, hended, -, rfl⟩ := hstored
  exact (h.ended r hr e hended).2

omit [DecidableEq τ] in
theorem storedAt_of_cons {requests : List (JwksRequest τ φ)} {r : JwksRequest τ φ}
    {jwks : Value φ} {at_ : ℤ} (hr : r.ended = none)
    (hstored : StoredAt (r :: requests) jwks at_) : StoredAt requests jwks at_ := by
  obtain ⟨r', hr', e, he, hspec⟩ := hstored
  rcases List.mem_cons.mp hr' with rfl | hr'
  · cases hr.symm.trans he
  · exact ⟨r', hr', e, he, hspec⟩

/-- After a request has ended, one entry of the log has got its end, and the others are
there as before. -/
theorem Guarded.log_endRequest (hg : Guarded s) {t : τ} {forced : Bool}
    (hc : s.callers t = .fetching forced) (e : JwksEnd φ) :
    ∃ r ∈ s.requests, r.caller = t ∧ r.found = s.cache ∧
      { r with ended := some e } ∈ OAuth.endRequest s.requests t e ∧
      (∀ r' ∈ OAuth.endRequest s.requests t e,
        r' = { r with ended := some e } ∨ r' ∈ s.requests) ∧
      Keeps s.requests (OAuth.endRequest s.requests t e) := by
  obtain ⟨r, rest, hrequests, hcaller, -, hflight, hfound, hended⟩ := hg.endRequest hc e
  rw [hended, hrequests]
  refine ⟨r, List.mem_cons_self, hcaller, hfound, List.mem_cons_self, fun r' hr' => ?_,
    fun r' hr' e' he' => ?_⟩
  · exact (List.mem_cons.mp hr').imp_right (List.mem_cons_of_mem r)
  · rcases List.mem_cons.mp hr' with rfl | hr'
    · rw [hflight] at he'
      cases he'
    · exact List.mem_cons_of_mem _ hr'

/-- The end of the request in flight, with the cache it leaves. -/
theorem Logged.finished (hg : Guarded s) (h : Logged s) {t : τ} {forced : Bool}
    (hc : s.callers t = .fetching forced) {c : JwksCaller φ} {cache : JwksCache φ} {e : JwksEnd φ}
    (hclock : s.clock ≤ e.at_) (hkept : ∀ x, e.result = .error x → cache = s.cache ∧ e.left = cache)
    (hstored : ∀ jwks, e.result = .ok jwks → cache = ⟨jwks, e.at_⟩)
    (hreturned : ∀ jwks now, c = .returned false jwks now → e.result = .ok jwks ∧ now = e.at_)
    (hraised : ∀ x, c = .raised (some x) → e.result = .error (some x)) (lock : AsyncLock τ) :
    Logged { s.setCaller t c with
      clock := e.at_, cache, lock, requests := endRequest s.requests t e } := by
  obtain ⟨r, hr, rfl, hfound, hnew, hmem, hkeeps⟩ := hg.log_endRequest hc e
  obtain ⟨hreturned', hraised'⟩ := h.callers (t := r.caller) (c := c) hkeeps
    (fun jwks now hx => by
      obtain ⟨hresult, rfl⟩ := hreturned jwks now hx
      refine ⟨e.at_, ⟨_, hnew, e, rfl, hresult, rfl⟩, Int.le_refl _, ?_⟩
      rw [Int.sub_self]
      decide)
    fun x hx => ⟨_, hnew, rfl, e, rfl, hraised x hx⟩
  refine ⟨fun r' hr' => ?_, fun r' hr' e' he' => ?_, ?_, ?_, hreturned', hraised',
    fun r' hr' e' x he' hx => ?_⟩
  · rcases hmem r' hr' with rfl | hr'
    · exact Int.le_trans (h.started r hr) hclock
    · exact Int.le_trans (h.started r' hr') hclock
  · rcases hmem r' hr' with rfl | hr'
    · cases he'
      exact ⟨Int.le_trans (h.started r hr) hclock, Int.le_refl _⟩
    · exact ⟨(h.ended r' hr' e' he').1, Int.le_trans (h.ended r' hr' e' he').2 hclock⟩
  · rintro jwks at_ ⟨r', hr', e', he', hresult, rfl⟩
    cases hend : e.result with
    | ok jwks' =>
        rw [hstored jwks' hend]
        rcases hmem r' hr' with rfl | hr'
        · cases he'
          exact Int.le_refl _
        · exact Int.le_trans (h.ended r' hr' e' he').2 hclock
    | error x =>
        rcases hmem r' hr' with rfl | hr'
        · cases he'
          cases hend.symm.trans hresult
        · rw [(hkept x hend).1]
          exact h.latest jwks e'.at_ ⟨r', hr', e', he', hresult, rfl⟩
  · cases hend : e.result with
    | ok jwks =>
        rw [hstored jwks hend]
        exact .inr ⟨_, hnew, e, rfl, hend, rfl⟩
    | error x =>
        rw [(hkept x hend).1]
        exact h.source.imp_right hkeeps.storedAt
  · rcases hmem r' hr' with rfl | hr'
    · cases he'
      obtain ⟨hcache, hleft⟩ := hkept x hx
      exact (hleft.trans hcache).trans hfound.symm
    · exact h.kept r' hr' e' x he' hx

theorem logged_step (hg : Guarded s) (h : Logged s) (hstep : jwksFetches.step s e = some s') :
    Logged s' := by
  obtain ⟨hclock, hmove⟩ := step_fetchMove hg hstep
  cases hmove with
  | served t lock hc hfresh hfair hlocked =>
      obtain ⟨hsome, hyoung⟩ := cacheIsFresh_iff.mp hfresh
      refine h.moved hclock lock ?_ fun x hx => nomatch hx
      rintro jwks now ⟨⟩
      rcases h.source with hempty | hstored
      · rw [hempty] at hsome
        exact absurd rfl hsome
      · exact ⟨_, hstored, Int.le_trans (h.storedAt_le hstored) hclock, hyoung⟩
  | queued t forced cancelled lock hc hfair hlocked =>
      exact h.moved hclock lock (fun _ _ hx => nomatch hx) fun x hx => nomatch hx
  | left t lock hc hfair hlocked =>
      exact h.moved hclock lock (fun _ _ hx => nomatch hx) fun x hx => nomatch hx
  | started t forced lock hopen hneeds hfair hlocked =>
      have hkeeps : Keeps s.requests (⟨t, forced, e.now, s.cache, none⟩ :: s.requests) :=
        fun r hr _ _ => List.mem_cons_of_mem _ hr
      obtain ⟨hreturned, hraised⟩ := h.callers (t := t) (c := .fetching forced) hkeeps
        (fun _ _ hx => nomatch hx) fun _ hx => nomatch hx
      refine ⟨fun r hr => ?_, fun r hr e' he' => ?_, ?_, h.source.imp_right hkeeps.storedAt,
        hreturned, hraised, fun r hr e' x he' hx => ?_⟩
      · rcases List.mem_cons.mp hr with rfl | hr
        · exact Int.le_refl _
        · exact Int.le_trans (h.started r hr) hclock
      · rcases List.mem_cons.mp hr with rfl | hr
        · cases he'
        · exact ⟨(h.ended r hr e' he').1, Int.le_trans (h.ended r hr e' he').2 hclock⟩
      · exact fun jwks at_ hstored => h.latest jwks at_ (storedAt_of_cons rfl hstored)
      · rcases List.mem_cons.mp hr with rfl | hr
        · cases he'
        · exact h.kept r hr e' x he' hx
  | stored t forced a jwks hc haction hread =>
      refine h.finished hg hc (c := .returned forced jwks e.now)
        (e := ⟨e.now, .ok jwks, ⟨jwks, e.now⟩⟩) hclock (fun x hx => nomatch hx) ?_ ?_
        (fun x hx => nomatch hx) _
      · rintro jwks' ⟨⟩
        rfl
      · rintro jwks' now ⟨⟩
        exact ⟨rfl, rfl⟩
  | failed t forced x hc =>
      refine h.finished hg hc (c := .raised x) (e := ⟨e.now, .error x, s.cache⟩) hclock
        (fun x _ => ⟨rfl, rfl⟩) (fun jwks hx => nomatch hx) (fun jwks now hx => nomatch hx) ?_ _
      rintro x' ⟨⟩
      rfl

omit [DecidableEq τ] in
theorem logged_start (clock : ℤ) : Logged (jwksStart clock : JwksWorld τ φ) where
  started := fun _ hr => absurd hr List.not_mem_nil
  ended := fun _ hr => absurd hr List.not_mem_nil
  latest := fun _ _ ⟨_, hr, _⟩ => absurd hr List.not_mem_nil
  source := .inl rfl
  returned := fun _ _ _ hc => nomatch hc
  raised := fun _ _ hc => nomatch hc
  kept := fun _ hr => absurd hr List.not_mem_nil

/-! ### The distance of two requests -/

/-- The cache is never emptied, so a stale cache is an old one. -/
structure Spaced (s : JwksWorld τ φ) : Prop where
  current : ∀ jwks at_, StoredAt s.requests jwks at_ → s.cache.jwks ≠ .null
  apart : s.requests.Pairwise fun later earlier => later.forced = false → ∀ e jwks,
    earlier.ended = some e → e.result = .ok jwks →
      e.at_ + seconds jwksTtlSeconds ≤ later.startedAt

theorem readJson_null {refused : Raised} {a : HttpAnswer φ}
    (h : readJson refused a = .ok .null) : ∃ status, a = .response status (some .null) ∧
      status < 400 := by
  unfold readJson at h
  split at h
  · cases h
  · cases h
  · rename_i status body
    split at h
    · cases h
    · split at h
      · cases h
      · cases body with
        | none => cases h
        | some jwks =>
            cases h
            exact ⟨status, rfl, by omega⟩

/-- The end of a request leaves the order of the log as it is. -/
theorem pairwise_endRequest (hg : Guarded s) {t : τ} {forced : Bool}
    (hc : s.callers t = .fetching forced) (e : JwksEnd φ)
    {R : JwksRequest τ φ → JwksRequest τ φ → Prop}
    (hR : ∀ r r' e, R r r' → R { r with ended := some e } r') (h : s.requests.Pairwise R) :
    (endRequest s.requests t e).Pairwise R := by
  obtain ⟨r, rest, hrequests, -, -, -, -, hended⟩ := hg.endRequest hc e
  rw [hrequests] at h
  rw [hended]
  obtain ⟨hhead, hrest⟩ := List.pairwise_cons.mp h
  exact List.pairwise_cons.mpr ⟨fun r' hr' => hR r r' e (hhead r' hr'), hrest⟩

theorem storedAt_of_failed (hg : Guarded s) {t : τ} {forced : Bool}
    (hc : s.callers t = .fetching forced) {e : JwksEnd φ} {x : Option Raised}
    (hx : e.result = .error x) {jwks : Value φ} {at_ : ℤ}
    (h : StoredAt (endRequest s.requests t e) jwks at_) : StoredAt s.requests jwks at_ := by
  obtain ⟨r, -, -, -, -, hmem, -⟩ := hg.log_endRequest hc e
  obtain ⟨r', hr', e', he', hresult, hat⟩ := h
  rcases hmem r' hr' with rfl | hr'
  · cases he'
    cases hx.symm.trans hresult
  · exact ⟨r', hr', e', he', hresult, hat⟩

theorem spaced_step (hg : Guarded s) (hl : Logged s) (h : Spaced s) (hplain : ¬ AnswersNull e)
    (hstep : jwksFetches.step s e = some s') : Spaced s' := by
  obtain ⟨hclock, hmove⟩ := step_fetchMove hg hstep
  cases hmove with
  | served t lock hc hfresh hfair hlocked => exact ⟨h.current, h.apart⟩
  | queued t forced cancelled lock hc hfair hlocked => exact ⟨h.current, h.apart⟩
  | left t lock hc hfair hlocked => exact ⟨h.current, h.apart⟩
  | started t forced lock hopen hneeds hfair hlocked =>
      refine ⟨fun jwks at_ hstored => h.current jwks at_ (storedAt_of_cons rfl hstored),
        List.pairwise_cons.mpr ⟨fun r hr hforced e' jwks he' hresult => ?_, h.apart⟩⟩
      -- the caller found a key set in the cache, and it was too old
      have hstored : StoredAt s.requests jwks e'.at_ := ⟨r, hr, e', he', hresult, rfl⟩
      have hold : ¬ (e.now - s.cache.cachedAt < seconds jwksTtlSeconds) := fun hyoung => by
        have hfresh := cacheIsFresh_iff.mpr ⟨h.current jwks e'.at_ hstored, hyoung⟩
        rw [hneeds hforced] at hfresh
        cases hfresh
      have hlatest := hl.latest jwks e'.at_ hstored
      show e'.at_ + _ ≤ e.now
      omega
  | stored t forced a jwks hc haction hread =>
      refine ⟨fun _ _ _ hnull => ?_, pairwise_endRequest hg hc _ (fun _ _ _ hr => hr) h.apart⟩
      cases hnull
      obtain ⟨status, rfl, hstatus⟩ := readJson_null hread
      exact hplain ⟨t, status, haction, hstatus⟩
  | failed t forced x hc =>
      exact ⟨fun jwks at_ hstored => h.current jwks at_ (storedAt_of_failed hg hc rfl hstored),
        pairwise_endRequest hg hc _ (fun _ _ _ hr => hr) h.apart⟩

omit [DecidableEq τ] in
theorem spaced_start (clock : ℤ) : Spaced (jwksStart clock : JwksWorld τ φ) where
  current := fun _ _ ⟨_, hr, _⟩ => absurd hr List.not_mem_nil
  apart := .nil

/-! ### Along a run -/

omit [DecidableEq τ] in
theorem Guarded.single (h : Guarded s) :
    (s.requests.filter fun r => r.ended.isNone).length ≤ 1 := by
  cases hrequests : s.requests with
  | nil => exact Nat.zero_le 1
  | cons r rest =>
      have hbehind := h.behind
      rw [hrequests] at hbehind
      have hrest : rest.filter (fun r => r.ended.isNone) = [] := by
        refine List.filter_eq_nil_iff.mpr fun x hx => ?_
        have hended : x.ended.isSome = true := hbehind x hx
        simp [Option.isSome_iff_ne_none.mp hended]
      rw [List.filter_cons, hrest]
      split
      · exact Nat.le_refl 1
      · exact Nat.zero_le 1

omit [DecidableEq τ] in
theorem fetchContract (hg : Guarded s) (hl : Logged s) (hs : Spaced s) : FetchContract s where
  single := hg.single
  spaced := by
    refine hs.apart.imp_of_mem fun hlater hearlier hapart hforced _ e jwks he hresult => ?_
    have hended := (hl.ended _ hearlier e he).1
    have hnext := hapart hforced e jwks he hresult
    omega
  returned := hl.returned
  kept := hl.kept
  raised := hl.raised

/-- What needs nothing of the answers. -/
theorem guarded_logged_run {clock : ℤ} {es : List (JwksEvent τ φ)}
    (hrun : jwksFetches.run (jwksStart clock) es = some s) : Guarded s ∧ Logged s :=
  jwksFetches.invariant_run (I := fun s => Guarded s ∧ Logged s)
    (fun _ _ _ h hstep => ⟨guarded_step h.1 hstep, logged_step h.1 h.2 hstep⟩)
    ⟨guarded_start clock, logged_start clock⟩ hrun

/-- For any callers and any schedule, as long as no answer is `null`. -/
theorem fetchContract_of_run {clock : ℤ} {es : List (JwksEvent τ φ)}
    (hplain : ∀ e ∈ es, ¬ AnswersNull e)
    (hrun : jwksFetches.run (jwksStart clock) es = some s) : FetchContract s := by
  obtain ⟨⟨hg, hl⟩, hs⟩ := jwksFetches.invariant_along
    (C := fun _ e => ¬ AnswersNull e) (I := fun s => (Guarded s ∧ Logged s) ∧ Spaced s)
    (fun _ _ _ h hplain hstep => ⟨⟨guarded_step h.1.1 hstep, logged_step h.1.1 h.1.2 hstep⟩,
      spaced_step h.1.1 h.1.2 h.2 hplain hstep⟩)
    ⟨⟨guarded_start clock, logged_start clock⟩, spaced_start clock⟩
    (jwksFetches.along_of_forall hplain) hrun
  exact fetchContract hg hl hs

/-- Two callers at the start; the second one waits for the first one's answer. -/
def sharedFetch : List (JwksEvent ℕ ℤ) :=
  [⟨0, .call 0 false⟩, ⟨1, .call 1 false⟩, ⟨2, .answer 0 (.response 200 (some (.obj [])))⟩,
    ⟨3, .wake 1⟩]

theorem fetchContract_of_run_sharedFetch :
    ∃ s, jwksFetches.run (jwksStart 0) sharedFetch = some s ∧ FetchContract s := by
  obtain ⟨s, hrun⟩ : ∃ s, jwksFetches.run (jwksStart 0) sharedFetch = some s := ⟨_, rfl⟩
  refine ⟨s, hrun, fetchContract_of_run (fun e he => ?_) hrun⟩
  rintro ⟨t, status, haction, -⟩
  simp only [sharedFetch, List.mem_cons, List.not_mem_nil, or_false] at he
  rcases he with rfl | rfl | rfl | rfl <;> cases haction

/-- An answer `null`, and the next caller asks again. -/
theorem not_forall_fetchContract : ¬ ∀ (es : List (JwksEvent ℕ ℤ)) (s : JwksWorld ℕ ℤ),
    jwksFetches.run (jwksStart 0) es = some s → FetchContract s := by
  intro hclaim
  have hcontract := hclaim [⟨0, .call 0 false⟩, ⟨1, .answer 0 (.response 200 (some .null))⟩,
    ⟨2, .call 1 false⟩] _ rfl
  have happart :=
    (List.pairwise_cons.mp hcontract.spaced).1 _ List.mem_cons_self rfl rfl _ _ rfl rfl
  exact absurd happart (by decide)

/-! ### A caller on its own -/

/-- What a call of `fetchJwks` makes of its caller. -/
def JwksCaller.ofResult (forced : Bool) (now : ℤ) : Except Raised (Value φ) → JwksCaller φ
  | .ok jwks => .returned forced jwks now
  | .error x => .raised (some x)

/-- While the lock is free, a caller whose request is answered at once does what
`fetchJwks` does. -/
theorem fetchJwks_of_alone {t : τ} (habsent : s.callers t = .absent)
    (havailable : s.lock.available = true) {now : ℤ} (hclock : s.clock ≤ now) (forced : Bool)
    (a : HttpAnswer φ) : ∃ s', jwksFetches.run s (if !forced && cacheIsFresh now s.cache
        then [⟨now, .call t forced⟩] else [⟨now, .call t forced⟩, ⟨now, .answer t a⟩]) = some s' ∧
      s'.cache = (fetchJwks forced now a s.cache).2 ∧
      s'.callers t = .ofResult forced now (fetchJwks forced now a s.cache).1 := by
  have hcall : jwksFetches.step s ⟨now, .call t forced⟩ =
      some (enterFetch { s with clock := now } t forced) := by
    simp only [jwksFetches, fetchAction, if_pos hclock, habsent]
  by_cases hfresh : (!forced && cacheIsFresh now s.cache) = true
  · rw [if_pos hfresh, fetchJwks, if_pos hfresh]
    refine ⟨enterFetch { s with clock := now } t forced, ?_, ?_, ?_⟩
    · rw [System.run_cons, hcall]
      rfl
    · rw [enterFetch, if_pos hfresh]
      rfl
    · rw [enterFetch, if_pos hfresh]
      exact Function.update_self ..
  · have hsent : enterFetch { s with clock := now } t forced =
        { s.setCaller t (.fetching forced) with
          clock := now, lock := s.lock.take
          requests := ⟨t, forced, now, s.cache, none⟩ :: s.requests } := by
      rw [enterFetch, if_neg hfresh, if_pos havailable, underLock, if_neg hfresh]
      rfl
    have hanswer : ∀ s₁ : JwksWorld τ φ, s₁.clock = now → s₁.callers t = .fetching forced →
        jwksFetches.step s₁ ⟨now, .answer t a⟩ =
          some (leaveFetch s₁ t forced ((readJson .idTokenInvalid a).mapError some)) := by
      rintro s₁ rfl hfetching
      simp only [jwksFetches, fetchAction, if_pos (Int.le_refl _), hfetching]
    rw [if_neg hfresh, fetchJwks, if_neg hfresh]
    refine ⟨leaveFetch (enterFetch { s with clock := now } t forced) t forced
      ((readJson .idTokenInvalid a).mapError some), ?_, ?_, ?_⟩
    · rw [System.run_cons, hcall, hsent]
      exact (congrArg (Option.bind · _) (hanswer _ rfl (Function.update_self ..)))
    · rw [hsent]
      cases readJson .idTokenInvalid a with
      | error x => rfl
      | ok jwks => rfl
    · rw [hsent]
      cases readJson .idTokenInvalid a with
      | error x => exact JwksWorld.callers_setCaller _ t (.raised (some x))
      | ok jwks => exact JwksWorld.callers_setCaller _ t (.returned forced jwks now)

end Moves

end TranscriptionApi.Auth.OAuth
