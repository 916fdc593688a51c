import Mathlib.Logic.Relation
import Mathlib.Data.List.Basic

/-!
# Labelled transition systems and inductive invariants

A system is a set of initial states and a labelled step relation. A property
of every reachable state is proved once per step (`Inductive`) and lifted to
whole runs (`Inductive.run`, `Inductive.reachable`).

`LTS.ofStep` turns a partial step function into a system, so that a run can be
computed (`exec`) and the computed run used as a witness (`exists_reachable`).

`LTS.guard M C` keeps the steps of `M` that meet a condition `C` on the state
before the step and on the label: its runs are the runs of `M` whose steps all
meet `C`. `LTS.within M P` keeps the steps that end in `P`.

`LTS.Refines M N f` maps the states of `M` to those of `N` so that a step of `M`
is a step of `N` or leaves its state alone: what holds of every reachable state
of `N` holds of the images.

`LTS.recording M h₀ note` runs `M` beside a history that its steps write and none of
them reads: its runs are those of `M` (`Run.recording`, `Run.of_recording`).

`Pool.advance` is a step of one of several activities in progress.
-/
namespace Core

variable {S L : Type*}

structure LTS (S L : Type*) where
  init : S → Prop
  step : S → L → S → Prop

namespace LTS

inductive Run (M : LTS S L) : S → List L → S → Prop where
  | nil (s : S) : Run M s [] s
  | cons {s s' s'' : S} {l : L} {ls : List L} :
      M.step s l s' → Run M s' ls s'' → Run M s (l :: ls) s''

def Reachable (M : LTS S L) (s : S) : Prop := ∃ s₀ ls, M.init s₀ ∧ M.Run s₀ ls s

/-- `P` holds initially and every step keeps it. -/
structure Inductive (M : LTS S L) (P : S → Prop) : Prop where
  init : ∀ s, M.init s → P s
  step : ∀ s l s', P s → M.step s l s' → P s'

variable {M : LTS S L}

theorem Run.append {a b c : S} {l₁ l₂ : List L} (h₁ : M.Run a l₁ b) (h₂ : M.Run b l₂ c) :
    M.Run a (l₁ ++ l₂) c := by
  induction h₁ with
  | nil => exact h₂
  | cons hs _ ih => exact .cons hs (ih h₂)

theorem Run.of_append {a b : S} {l₁ l₂ : List L} (h : M.Run a (l₁ ++ l₂) b) :
    ∃ c, M.Run a l₁ c ∧ M.Run c l₂ b := by
  induction l₁ generalizing a with
  | nil => exact ⟨a, .nil a, h⟩
  | cons l l₁ ih =>
    cases h with
    | cons hs hr =>
      obtain ⟨c, h₁, h₂⟩ := ih hr
      exact ⟨c, .cons hs h₁, h₂⟩

theorem Run.single {a b : S} {l : L} (h : M.step a l b) : M.Run a [l] b := .cons h (.nil b)

/-- What every step keeps, a run keeps. -/
theorem Run.invariant {P : S → Prop} (hP : ∀ s l s', P s → M.step s l s' → P s') {a b : S}
    {ls : List L} (h : M.Run a ls b) (ha : P a) : P b := by
  induction h with
  | nil => exact ha
  | cons hs _ ih => exact ih (hP _ _ _ ha hs)

/-- A run that leaves `P` has a step that does. -/
theorem Run.exists_leaving {P : S → Prop} {a b : S} {ls : List L} (h : M.Run a ls b) (ha : P a)
    (hb : ¬ P b) :
    ∃ l₁ l l₂ s s', ls = l₁ ++ l :: l₂ ∧ M.Run a l₁ s ∧ P s ∧ M.step s l s' ∧ ¬ P s' := by
  induction h with
  | nil => exact absurd ha hb
  | @cons a c b l ls hs _ ih =>
    by_cases hc : P c
    · obtain ⟨l₁, k, l₂, s, s', rfl, hrun, hP, hstep, hP'⟩ := ih hc hb
      exact ⟨l :: l₁, k, l₂, s, s', rfl, .cons hs hrun, hP, hstep, hP'⟩
    · exact ⟨[], l, ls, a, c, rfl, .nil a, ha, hs, hc⟩

theorem Reachable.next {s s' : S} {l : L} (h : M.Reachable s) (hs : M.step s l s') :
    M.Reachable s' := by
  obtain ⟨s₀, ls, h₀, hr⟩ := h
  exact ⟨s₀, ls ++ [l], h₀, hr.append (.single hs)⟩

theorem Inductive.reachable {P : S → Prop} (h : M.Inductive P) (s : S) (hr : M.Reachable s) :
    P s := by
  obtain ⟨s₀, ls, h₀, hr⟩ := hr
  exact hr.invariant h.step (h.init s₀ h₀)

/-- A second invariant may be proved with the first one at hand. -/
theorem Inductive.and {P Q : S → Prop} (hP : M.Inductive P) (hi : ∀ s, M.init s → Q s)
    (hs : ∀ s l s', P s → Q s → M.step s l s' → Q s') : M.Inductive fun s => P s ∧ Q s where
  init s h := ⟨hP.init s h, hi s h⟩
  step s l s' h hst := ⟨hP.step s l s' h.1 hst, hs s l s' h.1 h.2 hst⟩

/-! ## Conditions on the steps of a run -/

/-- The runs of `M` whose steps all meet `C`. -/
def guard (M : LTS S L) (C : S → L → Prop) : LTS S L where
  init := M.init
  step s l s' := M.step s l s' ∧ C s l

theorem Run.of_guard {C : S → L → Prop} {a b : S} {ls : List L} (h : (M.guard C).Run a ls b) :
    M.Run a ls b := by
  induction h with
  | nil => exact .nil _
  | cons hs _ ih => exact .cons hs.1 ih

theorem Reachable.of_guard {C : S → L → Prop} {s : S} (h : (M.guard C).Reachable s) :
    M.Reachable s := by
  obtain ⟨s₀, ls, h₀, hr⟩ := h
  exact ⟨s₀, ls, h₀, hr.of_guard⟩

theorem Inductive.guard {P : S → Prop} (h : M.Inductive P) (C : S → L → Prop) :
    (M.guard C).Inductive P where
  init := h.init
  step s l s' hP hs := h.step s l s' hP hs.1

theorem Run.guard_mono {C D : S → L → Prop} (hCD : ∀ s l, C s l → D s l) {a b : S} {ls : List L}
    (h : (M.guard C).Run a ls b) : (M.guard D).Run a ls b := by
  induction h with
  | nil => exact .nil _
  | cons hs _ ih => exact .cons ⟨hs.1, hCD _ _ hs.2⟩ ih

/-- Two conditions, one after the other. -/
theorem Run.guard_guard {C D : S → L → Prop} {a b : S} {ls : List L}
    (h : (M.guard fun s l => C s l ∧ D s l).Run a ls b) : ((M.guard C).guard D).Run a ls b := by
  induction h with
  | nil => exact .nil _
  | cons hs _ ih => exact .cons ⟨⟨hs.1, hs.2.1⟩, hs.2.2⟩ ih

/-- When, under an invariant `I`, a step keeps `P` exactly if it meets `C`, and
never brings `P` back, a run keeps `P` exactly if all its steps meet `C`. -/
theorem Run.guard_iff {I P : S → Prop} {C : S → L → Prop}
    (hI : ∀ s l s', I s → M.step s l s' → I s' ∧ (P s' ↔ P s ∧ C s l)) {a b : S} {ls : List L}
    (h : M.Run a ls b) (ha : I a) : P b ↔ P a ∧ (M.guard C).Run a ls b := by
  constructor
  · intro hb
    induction h with
    | nil => exact ⟨hb, .nil _⟩
    | cons hs _ ih =>
      obtain ⟨hi, hp⟩ := hI _ _ _ ha hs
      obtain ⟨hP, hrun⟩ := ih hi hb
      exact ⟨(hp.mp hP).1, .cons ⟨hs, (hp.mp hP).2⟩ hrun⟩
  · rintro ⟨hP, hrun⟩
    refine (hrun.invariant (P := fun s => I s ∧ P s) (fun s l s' hk hs => ?_) ⟨ha, hP⟩).2
    obtain ⟨hi, hp⟩ := hI s l s' hk.1 hs.1
    exact ⟨hi, hp.mpr ⟨hk.2, hs.2⟩⟩

/-- The runs of `M` all of whose states, after each step, have `P`. -/
def within (M : LTS S L) (P : S → Prop) : LTS S L where
  init s := M.init s ∧ P s
  step s l s' := M.step s l s' ∧ P s'

/-- When, from a state with `P`, a step stays in `P` exactly if it meets `C`, a run
stays in `P` exactly if all its steps meet `C`. -/
theorem Run.within_iff_guard {I P : S → Prop} {C : S → L → Prop}
    (hI : ∀ s l s', I s → P s → M.step s l s' → I s' ∧ (P s' ↔ C s l)) {a b : S} {ls : List L}
    (ha : I a) (hp : P a) : (M.within P).Run a ls b ↔ (M.guard C).Run a ls b := by
  constructor
  · intro h
    induction h with
    | nil s => exact .nil s
    | cons hs _ ih =>
      obtain ⟨hi, hc⟩ := hI _ _ _ ha hp hs.1
      exact .cons ⟨hs.1, hc.mp hs.2⟩ (ih hi hs.2)
  · intro h
    induction h with
    | nil s => exact .nil s
    | cons hs _ ih =>
      obtain ⟨hi, hc⟩ := hI _ _ _ ha hp hs.1
      exact .cons ⟨hs.1, hc.mpr hs.2⟩ (ih hi (hc.mpr hs.2))

/-! ## Refinement mappings -/

section Refines
variable {T A : Type*}

structure Refines (M : LTS S L) (N : LTS T A) (f : S → T) : Prop where
  init : ∀ s, M.init s → N.init (f s)
  step : ∀ s l s', M.step s l s' → f s' = f s ∨ ∃ a, N.step (f s) a (f s')

variable {N : LTS T A} {f : S → T}

theorem Refines.reachable (h : M.Refines N f) {s : S} (hr : M.Reachable s) : N.Reachable (f s) := by
  obtain ⟨s₀, ls, h₀, hrun⟩ := hr
  refine hrun.invariant (P := fun s => N.Reachable (f s)) (fun s l s' ih hs => ?_)
    ⟨f s₀, [], h.init s₀ h₀, .nil _⟩
  rcases h.step s l s' hs with he | ⟨a, ha⟩
  · rwa [he]
  · exact ih.next ha

end Refines

/-! ## Systems given by a step function -/

def ofStep (init : S → Prop) (step : S → L → Option S) : LTS S L where
  init := init
  step s l s' := step s l = some s'

def exec (step : S → L → Option S) : S → List L → Option S
  | s, [] => some s
  | s, l :: ls => (step s l).bind fun s' => exec step s' ls

theorem run_of_exec {init : S → Prop} {step : S → L → Option S} :
    ∀ {s : S} {ls : List L} {s' : S}, exec step s ls = some s' → (ofStep init step).Run s ls s'
  | s, [], s', h => by
    simp only [exec, Option.some.injEq] at h
    subst h
    exact .nil s
  | s, l :: ls, s', h => by
    simp only [exec, Option.bind_eq_some_iff] at h
    obtain ⟨s₁, h₁, h₂⟩ := h
    exact .cons h₁ (run_of_exec h₂)

/-- A computed run that ends in a state with `P`. -/
theorem exists_reachable (init : S → Prop) (step : S → L → Option S) {s : S} (ls : List L)
    (hi : init s) (P : S → Prop) [DecidablePred P]
    (h : (exec step s ls).any (fun s => decide (P s)) = true) :
    ∃ s', (ofStep init step).Reachable s' ∧ P s' := by
  obtain ⟨s', he, hp⟩ := (Option.any_eq_true _ _).mp h
  exact ⟨s', ⟨s, ls, hi, run_of_exec he⟩, of_decide_eq_true hp⟩

/-- `exec`, refusing a step that does not meet `C`. -/
def execWhere (step : S → L → Option S) (C : S → L → Prop) [∀ s l, Decidable (C s l)] :
    S → List L → Option S
  | s, [] => some s
  | s, l :: ls => if C s l then (step s l).bind fun s' => execWhere step C s' ls else none

theorem run_of_execWhere {init : S → Prop} {step : S → L → Option S} {C : S → L → Prop}
    [∀ s l, Decidable (C s l)] : ∀ {s : S} {ls : List L} {s' : S},
      execWhere step C s ls = some s' → ((ofStep init step).guard C).Run s ls s'
  | s, [], s', h => by
    simp only [execWhere, Option.some.injEq] at h
    subst h
    exact .nil s
  | s, l :: ls, s', h => by
    simp only [execWhere] at h
    split at h
    · rename_i hc
      simp only [Option.bind_eq_some_iff] at h
      obtain ⟨s₁, h₁, h₂⟩ := h
      exact .cons ⟨h₁, hc⟩ (run_of_execWhere h₂)
    · cases h

theorem exists_run_where (init : S → Prop) (step : S → L → Option S) (C : S → L → Prop)
    [∀ s l, Decidable (C s l)] (s : S) (ls : List L) (P : S → Prop) [DecidablePred P]
    (h : (execWhere step C s ls).any (fun s => decide (P s)) = true) :
    ∃ s', ((ofStep init step).guard C).Run s ls s' ∧ P s' := by
  obtain ⟨s', he, hp⟩ := (Option.any_eq_true _ _).mp h
  exact ⟨s', run_of_execWhere he, of_decide_eq_true hp⟩

theorem exists_reachable_where (init : S → Prop) (step : S → L → Option S) (C : S → L → Prop)
    [∀ s l, Decidable (C s l)] {s : S} (ls : List L) (hi : init s) (P : S → Prop) [DecidablePred P]
    (h : (execWhere step C s ls).any (fun s => decide (P s)) = true) :
    ∃ s', ((ofStep init step).guard C).Reachable s' ∧ P s' := by
  obtain ⟨s', hr, hp⟩ := exists_run_where init step C s ls P h
  exact ⟨s', ⟨s, ls, hi, hr⟩, hp⟩

/-! ## Histories -/

section Recording
variable {H : Type*}

/-- `note` is what a step adds to the history, from the state before it, its label and
the state after it. -/
def recording (M : LTS S L) (h₀ : S → H) (note : H → S → L → S → H) : LTS (S × H) L where
  init p := M.init p.1 ∧ p.2 = h₀ p.1
  step p l p' := M.step p.1 l p'.1 ∧ p'.2 = note p.2 p.1 l p'.1

variable {M : LTS S L} {h₀ : S → H} {note : H → S → L → S → H}

theorem Run.recording {a b : S} {ls : List L} (hr : M.Run a ls b) (h : H) :
    ∃ h', (M.recording h₀ note).Run (a, h) ls (b, h') := by
  induction hr generalizing h with
  | nil s => exact ⟨h, .nil _⟩
  | @cons s s' _ l _ hs _ ih =>
    obtain ⟨h', hrun⟩ := ih (note h s l s')
    exact ⟨h', .cons ⟨hs, rfl⟩ hrun⟩

theorem Run.of_recording {p q : S × H} {ls : List L} (hr : (M.recording h₀ note).Run p ls q) :
    M.Run p.1 ls q.1 := by
  induction hr with
  | nil => exact .nil _
  | cons hs _ ih => exact .cons hs.1 ih

/-- The step function with its history. -/
def recordStep (step : S → L → Option S) (note : H → S → L → S → H) (p : S × H) (l : L) :
    Option (S × H) :=
  (step p.1 l).map fun s' => (s', note p.2 p.1 l s')

/-- A system given by a step function, with a history, is given by one. -/
theorem recording_ofStep (init : S → Prop) (step : S → L → Option S) (h₀ : S → H)
    (note : H → S → L → S → H) : (ofStep init step).recording h₀ note =
      ofStep (fun p => init p.1 ∧ p.2 = h₀ p.1) (recordStep step note) := by
  unfold LTS.recording ofStep recordStep
  congr
  funext p l p'
  refine propext ⟨?_, ?_⟩
  · rintro ⟨hs, hh⟩
    exact Option.map_eq_some_iff.mpr ⟨p'.1, hs, Prod.ext rfl hh.symm⟩
  · intro h
    obtain ⟨s', hs, rfl⟩ := Option.map_eq_some_iff.mp h
    exact ⟨hs, rfl⟩

end Recording

end LTS

/-! ## A pool of activities -/

namespace Pool

variable {A : Type*}

/-- Activity `i` becomes `o`, or ends. -/
def advance (l : List A) (i : ℕ) : Option A → List A
  | none => l.eraseIdx i
  | some a => l.set i a

theorem mem_advance {l : List A} {i : ℕ} {o : Option A} {x : A} (h : x ∈ advance l i o) :
    x ∈ l ∨ o = some x := by
  cases o with
  | none => exact Or.inl (List.mem_of_mem_eraseIdx h)
  | some a => exact (List.mem_or_eq_of_mem_set h).imp_right fun e => by rw [e]

theorem mem_advance_self {l : List A} {i : ℕ} {a b : A} (h : l[i]? = some a) :
    b ∈ advance l i (some b) := by
  obtain ⟨hi, -⟩ := List.getElem?_eq_some_iff.mp h
  exact List.mem_set hi b

/-- The other activities stay. -/
theorem mem_advance_of_mem {l : List A} {i : ℕ} {a x : A} (h : l[i]? = some a) (o : Option A)
    (hx : x ∈ l) : x = a ∨ x ∈ advance l i o := by
  obtain ⟨j, hj, hjx⟩ := List.mem_iff_getElem.mp hx
  by_cases hij : i = j
  · subst hij
    rw [List.getElem?_eq_getElem hj, hjx] at h
    exact Or.inl (Option.some.inj h)
  · right
    cases o with
    | none =>
      refine List.mem_eraseIdx_iff_getElem?.mpr ⟨j, Ne.symm hij, ?_⟩
      rw [List.getElem?_eq_getElem hj, hjx]
    | some b =>
      refine List.mem_iff_getElem?.mpr ⟨j, ?_⟩
      rw [advance, List.getElem?_set_ne hij, List.getElem?_eq_getElem hj, hjx]

/-- An activity other than `i` is still there. -/
theorem mem_advance_of_ne {l : List A} {i : ℕ} {a x : A} (h : l[i]? = some a) (o : Option A)
    (hx : x ∈ l) (hne : x ≠ a) : x ∈ advance l i o :=
  (mem_advance_of_mem h o hx).resolve_left hne

/-- Ending an activity adds none. -/
theorem mem_of_mem_finish {l : List A} {i : ℕ} {x : A} (h : x ∈ advance l i none) : x ∈ l :=
  List.mem_of_mem_eraseIdx h

end Pool
end Core
