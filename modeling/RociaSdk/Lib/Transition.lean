import Mathlib.Init

/-!
# Labelled transition systems

A system is a function that says what an event does in a state, if it can happen there. `Run step guard s t` says that `t` is
reached from `s` by events that each meet `guard` where they happen; `Reaches` asks nothing of them. Properties of runs are
carried by induction: `Run.invariant` for one state, `Run.relation` for the first and the last.
-/

namespace Transition

variable {σ ε : Type}

/-- What a run reaches from `s` by events that meet the guard. -/
inductive Run (step : σ → ε → Option σ) (guard : σ → ε → Prop) (s : σ) : σ → Prop where
  | refl : Run step guard s s
  | tail {t u : σ} (e : ε) : Run step guard s t → guard t e → step t e = some u → Run step guard s u

/-- What a run reaches from `s` by any events. -/
abbrev Reaches (step : σ → ε → Option σ) (s t : σ) : Prop := Run step (fun _ _ => True) s t

/-- The state after a list of events, if each can happen in turn. -/
def exec (step : σ → ε → Option σ) : σ → List ε → Option σ
  | s, [] => some s
  | s, e :: es => (step s e).bind fun t => exec step t es

variable {step : σ → ε → Option σ} {guard : σ → ε → Prop} {s t u : σ}

/-- What holds at first and is kept by every event of a run holds at its end. -/
theorem Run.invariant (P : σ → Prop) (h : Run step guard s t) (hinit : P s)
    (hstep : ∀ t e u, P t → guard t e → step t e = some u → P u) : P t := by
  induction h with
  | refl => exact hinit
  | tail e _ hguard hs ih => exact hstep _ e _ ih hguard hs

/-- A reflexive and transitive relation that every event keeps between the states it leads from and to relates the ends of a
run, as long as an invariant holds along it. -/
theorem Run.relation (P : σ → Prop) (R : σ → σ → Prop) (h : Run step guard s t) (hinit : P s)
    (hkeep : ∀ t e u, P t → guard t e → step t e = some u → P u) (hrefl : R s s)
    (hstep : ∀ t e u, P t → R s t → step t e = some u → R s u) : R s t := by
  have hboth : P t ∧ R s t := h.invariant (fun t => P t ∧ R s t) ⟨hinit, hrefl⟩ fun t e u hp hguard hs =>
    ⟨hkeep t e u hp.1 hguard hs, hstep t e u hp.1 hp.2 hs⟩
  exact hboth.2

/-- A run goes on from where another ends. -/
theorem Run.trans (h : Run step guard s t) (h' : Run step guard t u) : Run step guard s u := by
  induction h' with
  | refl => exact h
  | tail e _ hguard hs ih => exact ih.tail e hguard hs

/-- A run under one guard is a run under a weaker one. -/
theorem Run.mono {guard' : σ → ε → Prop} (hg : ∀ t e, guard t e → guard' t e) (h : Run step guard s t) :
    Run step guard' s t := by
  induction h with
  | refl => exact .refl
  | tail e _ hguard hs ih => exact ih.tail e (hg _ _ hguard) hs

/-- A run under one guard is a run under another, if an invariant of it makes every event that happens meet that one. -/
theorem Run.strengthen {guard' : σ → ε → Prop} (P : σ → Prop) (h : Run step guard s t) (hinit : P s)
    (hkeep : ∀ t e u, P t → guard t e → step t e = some u → P u)
    (himp : ∀ t e u, P t → guard t e → step t e = some u → guard' t e) : Run step guard' s t := by
  induction h with
  | refl => exact .refl
  | tail e hrun hguard hs ih => exact ih.tail e (himp _ e _ (hrun.invariant P hinit hkeep) hguard hs) hs

/-- What a list of events leads to is reached under any guard those events meet everywhere. -/
theorem run_of_exec {es : List ε} (h : exec step s es = some t) (hguard : ∀ e ∈ es, ∀ u, guard u e) :
    Run step guard s t := by
  induction es generalizing s with
  | nil =>
    cases h
    exact .refl
  | cons e es ih =>
    unfold exec at h
    cases hs : step s e with
    | none => rw [hs] at h; cases h
    | some u =>
      rw [hs] at h
      exact (Run.refl.tail e (hguard e (List.mem_cons_self ..) s) hs).trans
        (ih h fun e' he' => hguard e' (List.mem_cons_of_mem _ he'))

/-- What a list of events leads to is reached. -/
theorem reaches_of_exec {es : List ε} (h : exec step s es = some t) : Reaches step s t :=
  run_of_exec h fun _ _ _ => trivial

end Transition
