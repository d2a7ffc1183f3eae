import RociaSdk.Lib.Faultless

/-!
# A server behind a view

A service may be seen through a view of its states as another one, which does there what the first does. What a dispatch comes to with
the one in a run without faults it also comes to with the other, and the other way round (`goes_view`, `goes_of_view`).
-/

namespace Dispatching

variable {κ ι ε σ τ : Type}

/-- What a service does with an item is what another does, seen through a view. -/
def Service.ShownBy (service : Service σ ι ε) (f : σ → τ) (shown : Service τ ι ε) (server : σ) (item : ι) : Prop :=
  shown.handle (f server) item = (f (service.handle server item).1, (service.handle server item).2)

namespace Exchange

/-- An exchange seen through a view of its server. -/
def view (f : σ → τ) (x : Exchange κ ι ε σ) : Exchange κ ι ε τ :=
  { client := x.client, response := x.response, stale := x.stale, server := f x.server, accepted := x.accepted }

/-- What two runs have come to of which the one is seen as the other: the dispatches are the same, and so is all else until they have
failed. -/
structure Viewed (f : σ → τ) (x : Exchange κ ι ε σ) (y : Exchange κ ι ε τ) : Prop where
  client : y.client = x.client
  rest : x.client.status = .live ∨ x.client.status = .returned (.ok ()) → y = x.view f

variable [DecidableEq κ] {limit : Nat} {service : Service σ ι ε} {shown : Service τ ι ε} {f : σ → τ} {x x₀ : Exchange κ ι ε σ}
  {y : Exchange κ ι ε τ} {group : κ → List ι} {keyOf : ι → κ}

/-! ## One event -/

omit [DecidableEq κ] in
theorem serve_view {item : ι} (h : service.ShownBy f shown x.server item) :
    (x.view f).serve shown item = (x.serve service item).view f := by
  unfold Service.ShownBy at h
  unfold serve
  simp only [view, h]
  rcases service.handle x.server item with ⟨server, _ | _⟩ <;> rfl

/-- An event does the same with both services where nothing is stale. -/
theorem step_view (hstale : x.stale = [])
    (h : ∀ key item, x.unhandled key = some item → service.ShownBy f shown x.server item) (e : Event κ ε) :
    (x.view f).step limit shown e = (x.step limit service e).map (view f) := by
  cases e with
  | start =>
    simp only [step, view]
    cases x.client.start limit <;> rfl
  | issue key =>
    simp only [step, view]
    cases x.client.issue key <;> rfl
  | handle key =>
    have hunhandled : (x.view f).unhandled key = x.unhandled key := rfl
    simp only [step, hunhandled]
    cases hitem : x.unhandled key with
    | none => rfl
    | some item =>
      have hshown := h key item hitem
      have hanswer : (shown.handle (x.view f).server item).2 = (service.handle x.server item).2 := congrArg Prod.snd hshown
      simp only [Option.map_some, serve_view hshown, hanswer]
      rfl
  | respond key =>
    have hresponse : (x.view f).response key = x.response key := rfl
    simp only [step, hresponse]
    rcases x.response key with _ | _ | _
    · rfl
    · simp only [view]
      cases x.client.fail key _ <;> rfl
    · simp only [view]
      cases x.client.ack key <;> rfl
  | lose key e =>
    simp only [step, view]
    cases x.client.fail key e <;> rfl
  | finish key =>
    simp only [step, view]
    cases x.client.finish key <;> rfl
  | complete =>
    simp only [step, view]
    cases x.client.complete <;> rfl
  | drop =>
    simp only [step, view]
    cases x.client.drop <;> rfl
  | land index => simp [step, view, hstale]

/-- Nothing happens once the dispatch has returned `Ok`. -/
theorem Inv.quiet (h : x.Inv limit group keyOf) (hok : x.client.status = .returned (.ok ())) :
    (∀ k, x.client.inFlight k = false) ∧ x.stale = [] := by
  refine ⟨fun k => ?_, (h.done hok).1⟩
  cases hflight : x.client.inFlight k with
  | false => rfl
  | true =>
    obtain ⟨item, _, hhead⟩ := h.client.flying k hflight
    rw [h.client.done hok k] at hhead
    cases hhead

/-! ## Runs -/

section
variable (hinv : x₀.Inv limit group keyOf) (hkey : ∀ k, ∀ item ∈ group k, keyOf item = k)
  (hshown : ∀ x, Goes limit service x₀ x → x.client.status = .live → ∀ key item, x.unhandled key = some item →
    service.ShownBy f shown x.server item)
include hinv hkey hshown

/-- While the dispatch is live, an event does the same with both services. -/
theorem step_live (hrun : Goes limit service x₀ x) (hlive : x.client.status = .live) (e : Event κ ε) :
    (x.view f).step limit shown e = (x.step limit service e).map (view f) :=
  step_view ((hinv.run hrun hkey).accounted hlive).1 (hshown x hrun hlive) e

/-- A run with the one service is seen as a run with the other. -/
theorem goes_view (hrun : Goes limit service x₀ x) : ∃ y, Goes limit shown (x₀.view f) y ∧ Viewed f x y := by
  induction hrun with
  | refl => exact ⟨x₀.view f, .refl, rfl, fun _ => rfl⟩
  | @tail t u e hrun hfault hs ih =>
    obtain ⟨y, hy, hview⟩ := ih
    by_cases hlive : t.client.status = .live
    · have hsame := step_live hinv hkey hshown hrun hlive e
      rw [hs, Option.map_some, ← hview.rest (.inl hlive)] at hsame
      exact ⟨u.view f, hy.tail e hfault hsame, rfl, fun _ => rfl⟩
    · have hclient := (step_cases hs).closed hlive
      refine ⟨y, hy, hview.client.trans hclient.symm, ?_⟩
      rintro (hstatus | hok)
      · exact absurd (hclient ▸ hstatus) hlive
      · rw [hclient] at hok
        obtain ⟨hflight, hstale⟩ := (hinv.run hrun hkey).quiet hok
        exact ((step_cases hs).of_quiet hlive hflight hstale).elim

/-- A run with the other service is what one with the first is seen as. -/
theorem goes_of_view (hrun : Goes limit shown (x₀.view f) y) : ∃ x, Goes limit service x₀ x ∧ Viewed f x y := by
  induction hrun with
  | refl => exact ⟨x₀, .refl, rfl, fun _ => rfl⟩
  | @tail t u e _ hfault hs ih =>
    obtain ⟨x, hx, hview⟩ := ih
    by_cases hlive : x.client.status = .live
    · have hsame := step_live hinv hkey hshown hx hlive e
      rw [← hview.rest (.inl hlive), hs, eq_comm, Option.map_eq_some_iff] at hsame
      obtain ⟨x', hx', rfl⟩ := hsame
      exact ⟨x', hx.tail e hfault hx', rfl, fun _ => rfl⟩
    · have hclient := (step_cases hs).closed (hview.client ▸ hlive)
      refine ⟨x, hx, hclient.trans hview.client, ?_⟩
      rintro (hstatus | hok)
      · exact absurd hstatus hlive
      · obtain ⟨hflight, hstale⟩ := (hinv.run hx hkey).quiet hok
        have ht := hview.rest (.inr hok)
        subst ht
        exact ((step_cases hs).of_quiet hlive hflight hstale).elim

end

end Exchange

end Dispatching
