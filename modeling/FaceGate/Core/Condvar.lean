import FaceGate.Core.LTS

/-!
# A stop flag, a mutex and a condition variable

One thread waits, `while (!(stop || ready)) cv.wait(lock)`; another stores the
flag, without the mutex, and then notifies. Between the evaluation of the
predicate and the sleep, which releases the mutex in one step, the waiter is
`committed`: the mutex keeps out whoever locks it, but not the stopper.

A notification that finds the waiter `committed` wakes nobody, and the waiter
then sleeps for good; with no such notification it never does (`never_lost`).
`leave` after `commit` is a `ready` that is read after the flag.

A system `Follows` the protocol when each of its steps is, seen as a state of the
protocol, nothing, another act, or the notification; it then loses no wake-up.
-/
namespace Core.Condvar

inductive Waiter where
  | away
  | checking
  | committed
  | asleep
  | woken
  deriving DecidableEq, Repr

inductive Act where
  | lock | leave | commit | sleep | wake | store | notify
  deriving DecidableEq, Repr

structure State where
  waiter : Waiter
  stop : Bool
  notified : Bool
  deriving DecidableEq, Repr

/-- `notify_all`, for one waiter. -/
def Waiter.notify : Waiter → Waiter
  | asleep => woken
  | w => w

/-- `wake` is spurious, a timeout, or the notification of a third thread. -/
def step (s : State) : Act → Option State
  | .lock =>
    if s.waiter = .away ∨ s.waiter = .woken then some { s with waiter := .checking } else none
  | .leave =>
    if s.waiter = .checking ∨ s.waiter = .committed then some { s with waiter := .away } else none
  | .commit =>
    if s.waiter = .checking ∧ s.stop = false then some { s with waiter := .committed } else none
  | .sleep => if s.waiter = .committed then some { s with waiter := .asleep } else none
  | .wake => if s.waiter = .asleep then some { s with waiter := .woken } else none
  | .store => some { s with stop := true }
  | .notify =>
    if s.stop then some { s with waiter := s.waiter.notify, notified := true } else none

def start : State := ⟨.away, false, false⟩

def system : LTS State Act := .ofStep (· = start) step

/-- The stop has been notified, and the waiter sleeps. -/
def Lost (s : State) : Prop := s.notified = true ∧ s.waiter = .asleep

/-- The notification does not fall between the predicate and the sleep. -/
def InTime (s : State) (a : Act) : Prop := a = .notify → s.waiter ≠ .committed

structure Inv (s : State) : Prop where
  stop : s.notified = true → s.stop = true
  awake : s.notified = true → s.waiter ≠ .committed ∧ s.waiter ≠ .asleep

theorem inductive_inv : (system.guard InTime).Inductive Inv where
  init s h := by
    obtain rfl : s = start := h
    exact ⟨by simp [start], by simp [start]⟩
  step s a s' hi hs := by
    obtain ⟨hs, ht⟩ := hs
    have h0 : step s a = some s' := hs
    cases a with
    | notify =>
      simp only [step] at h0
      split at h0
      · rename_i hstop
        cases h0
        refine ⟨fun _ => hstop, fun _ => ?_⟩
        have hc := ht rfl
        cases hw : s.waiter <;> simp_all [Waiter.notify]
      · cases h0
    | store =>
      cases h0
      exact ⟨fun _ => rfl, hi.awake⟩
    | commit =>
      simp only [step] at h0
      split at h0
      · rename_i hc
        cases h0
        -- the flag was read as false, so nothing has been notified
        refine ⟨hi.stop, fun hn => ?_⟩
        have h1 := hi.stop hn
        rw [hc.2] at h1
        cases h1
      · cases h0
    | sleep =>
      simp only [step] at h0
      split at h0
      · rename_i hc
        cases h0
        exact ⟨hi.stop, fun hn => absurd hc (hi.awake hn).1⟩
      · cases h0
    | lock | leave | wake =>
      simp only [step] at h0
      split at h0
      · cases h0
        exact ⟨hi.stop, fun _ => ⟨by simp, by simp⟩⟩
      · cases h0

theorem never_lost {s : State} (h : (system.guard InTime).Reachable s) : ¬ Lost s :=
  fun hl => (((inductive_inv.reachable s h).awake) hl.1).2 hl.2

/-! ## Systems that contain the wait -/

/-- Nothing, or an act that is not the notification. -/
def Moves (c c' : State) : Prop := c' = c ∨ ∃ a, a ≠ .notify ∧ step c a = some c'

theorem moves_self (c : State) : Moves c c := Or.inl rfl

theorem moves_store (c : State) : Moves c { c with stop := true } :=
  Or.inr ⟨.store, by decide, rfl⟩

/-- The notification of a third thread. -/
theorem moves_wake (c : State) : Moves c { c with waiter := c.waiter.notify } := by
  obtain ⟨w, stop, notified⟩ := c
  cases w with
  | asleep => exact Or.inr ⟨.wake, by decide, rfl⟩
  | away | checking | committed | woken => exact Or.inl rfl

section Follows
variable {S L : Type*}

/-- `f` is the part of the protocol, `l₀` the label of the notification. -/
structure Follows (M : LTS S L) (l₀ : L) (f : S → State) : Prop where
  init : ∀ s, M.init s → f s = start
  step : ∀ s l s', M.step s l s' →
    Moves (f s) (f s') ∨ l = l₀ ∧ Condvar.step (f s) .notify = some (f s')

variable {M : LTS S L} {l₀ : L} {f : S → State}

theorem Follows.refines (h : Follows M l₀ f) :
    LTS.Refines (M.guard fun s l => l = l₀ → (f s).waiter ≠ .committed)
      (system.guard InTime) f where
  init := h.init
  step s l s' hs := by
    rcases h.step s l s' hs.1 with (hsame | ⟨a, ha, hact⟩) | ⟨hl, hnotify⟩
    · exact Or.inl hsame
    · exact Or.inr ⟨a, hact, fun e => absurd e ha⟩
    · exact Or.inr ⟨.notify, hnotify, fun _ => hs.2 hl⟩

theorem Follows.never_lost (h : Follows M l₀ f) {s : S}
    (hr : (M.guard fun s l => l = l₀ → (f s).waiter ≠ .committed).Reachable s) : ¬ Lost (f s) :=
  Condvar.never_lost (h.refines.reachable hr)

end Follows

end Core.Condvar
