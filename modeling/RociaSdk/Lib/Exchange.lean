import RociaSdk.Lib.Dispatch

/-!
# A dispatch and its server

`Exchange` puts a server on the other side of a dispatch: it handles an issued item once, and its response comes back or is
lost. Items that the dispatch has dropped in flight may still reach the server later.
-/

namespace Dispatching

/-! ## The server -/

/-- A server: how it handles an item. -/
structure Service (σ ι ε : Type) where
  handle : σ → ι → σ × Except ε Unit

/-- A dispatch and the server it talks to. -/
structure Exchange (κ ι ε σ : Type) where
  client : Dispatch κ ι ε
  /-- The server's response to the item in flight of a group, once it has handled it. -/
  response : κ → Option (Except ε Unit)
  /-- Items dropped in flight that the server has not handled. -/
  stale : List ι
  server : σ
  /-- What the server has accepted, in order. -/
  accepted : List ι

namespace Exchange

variable {κ ι ε σ : Type} [DecidableEq κ]

/-- What can happen. -/
inductive Event (κ ε : Type) where
  | start
  | issue (key : κ)
  /-- The server handles the item in flight. -/
  | handle (key : κ)
  /-- Its response reaches the client. -/
  | respond (key : κ)
  /-- The client gives the item up: a connection that breaks, a deadline. -/
  | lose (key : κ) (e : ε)
  | finish (key : κ)
  | complete
  | drop
  /-- The server handles an item dropped earlier. -/
  | land (index : Nat)

/-- An exchange at its beginning. -/
def new (client : Dispatch κ ι ε) (server : σ) : Exchange κ ι ε σ :=
  { client := client, response := fun _ => none, stale := [], server := server, accepted := [] }

/-- The item in flight of a group that the server has not handled. -/
def unhandled (x : Exchange κ ι ε σ) (key : κ) : Option ι :=
  if x.client.inFlight key = true ∧ (x.response key).isNone then (x.client.todo key).head? else none

/-- The client closes: what is in flight and has not been handled goes stale. -/
def close (x : Exchange κ ι ε σ) (client : Dispatch κ ι ε) : Exchange κ ι ε σ :=
  { x with
    client := client
    response := fun _ => none
    stale := x.stale ++ x.client.running.filterMap x.unhandled }

/-- The server handles an item. -/
def serve (service : Service σ ι ε) (x : Exchange κ ι ε σ) (item : ι) : Exchange κ ι ε σ :=
  match service.handle x.server item with
  | (server, .ok ()) => { x with server := server, accepted := x.accepted ++ [item] }
  | (server, .error _) => { x with server := server }

/-- What an event does, if it can happen. -/
def step (limit : Nat) (service : Service σ ι ε) (x : Exchange κ ι ε σ) : Event κ ε → Option (Exchange κ ι ε σ)
  | .start => (x.client.start limit).map fun client => { x with client := client }
  | .issue key => (x.client.issue key).map fun client => { x with client := client }
  | .handle key =>
    (x.unhandled key).map fun item =>
      { x.serve service item with
        response := Function.update x.response key (some (service.handle x.server item).2) }
  | .respond key =>
    match x.response key with
    | some (.ok ()) =>
      (x.client.ack key).map fun client => { x with client := client, response := Function.update x.response key none }
    | some (.error e) => (x.client.fail key e).map x.close
    | none => none
  | .lose key e => (x.client.fail key e).map x.close
  | .finish key => (x.client.finish key).map fun client => { x with client := client }
  | .complete => x.client.complete.map fun client => { x with client := client }
  | .drop => x.client.drop.map x.close
  | .land index =>
    (x.stale[index]?).map fun item => { x.serve service item with stale := x.stale.eraseIdx index }

end Exchange

/-! ## What an event of the exchange can do -/

namespace Exchange

variable {κ ι ε σ : Type} [DecidableEq κ] {limit : Nat} {service : Service σ ι ε} {x x' : Exchange κ ι ε σ} {e : Event κ ε}

/-- What each event does, and when. -/
inductive Step (limit : Nat) (service : Service σ ι ε) (x : Exchange κ ι ε σ) : Event κ ε → Exchange κ ι ε σ → Prop where
  | start (c : Dispatch κ ι ε) (h : x.client.start limit = some c) : Step limit service x .start { x with client := c }
  | issue (key : κ) (c : Dispatch κ ι ε) (h : x.client.issue key = some c) :
      Step limit service x (.issue key) { x with client := c }
  | finish (key : κ) (c : Dispatch κ ι ε) (h : x.client.finish key = some c) :
      Step limit service x (.finish key) { x with client := c }
  | complete (c : Dispatch κ ι ε) (h : x.client.complete = some c) : Step limit service x .complete { x with client := c }
  | handle (key : κ) (item : ι) (h : x.unhandled key = some item) :
      Step limit service x (.handle key)
        { x.serve service item with
          response := Function.update x.response key (some (service.handle x.server item).2) }
  | ack (key : κ) (c : Dispatch κ ι ε) (hr : x.response key = some (.ok ())) (h : x.client.ack key = some c) :
      Step limit service x (.respond key) { x with client := c, response := Function.update x.response key none }
  | reject (key : κ) (err : ε) (c : Dispatch κ ι ε) (hr : x.response key = some (.error err))
      (h : x.client.fail key err = some c) : Step limit service x (.respond key) (x.close c)
  | lose (key : κ) (err : ε) (c : Dispatch κ ι ε) (h : x.client.fail key err = some c) :
      Step limit service x (.lose key err) (x.close c)
  | drop (c : Dispatch κ ι ε) (h : x.client.drop = some c) : Step limit service x .drop (x.close c)
  | land (index : Nat) (item : ι) (h : x.stale[index]? = some item) :
      Step limit service x (.land index) { x.serve service item with stale := x.stale.eraseIdx index }

theorem step_cases (h : x.step limit service e = some x') : x.Step limit service e x' := by
  cases e with
  | start =>
    obtain ⟨c, hc, rfl⟩ := Option.map_eq_some_iff.1 h
    exact .start c hc
  | issue key =>
    obtain ⟨c, hc, rfl⟩ := Option.map_eq_some_iff.1 h
    exact .issue key c hc
  | handle key =>
    obtain ⟨item, hitem, rfl⟩ := Option.map_eq_some_iff.1 h
    exact .handle key item hitem
  | respond key =>
    simp only [step] at h
    split at h
    · obtain ⟨c, hc, rfl⟩ := Option.map_eq_some_iff.1 h
      exact .ack key c ‹_› hc
    · obtain ⟨c, hc, rfl⟩ := Option.map_eq_some_iff.1 h
      exact .reject key _ c ‹_› hc
    · cases h
  | lose key err =>
    obtain ⟨c, hc, rfl⟩ := Option.map_eq_some_iff.1 h
    exact .lose key err c hc
  | finish key =>
    obtain ⟨c, hc, rfl⟩ := Option.map_eq_some_iff.1 h
    exact .finish key c hc
  | complete =>
    obtain ⟨c, hc, rfl⟩ := Option.map_eq_some_iff.1 h
    exact .complete c hc
  | drop =>
    obtain ⟨c, hc, rfl⟩ := Option.map_eq_some_iff.1 h
    exact .drop c hc
  | land index =>
    obtain ⟨item, hitem, rfl⟩ := Option.map_eq_some_iff.1 h
    exact .land index item hitem

omit [DecidableEq κ] in
/-- An unhandled item is the first one left of its group, in flight. -/
theorem unhandled_eq {key : κ} {item : ι} (h : x.unhandled key = some item) :
    x.client.inFlight key = true ∧ x.response key = none ∧ (x.client.todo key).head? = some item := by
  unfold unhandled at h
  split at h
  · rename_i hcan
    exact ⟨hcan.1, Option.isNone_iff_eq_none.1 hcan.2, h⟩
  · cases h

omit [DecidableEq κ] in
/-- Serving an item concerns the server only. -/
theorem serve_eq (service : Service σ ι ε) (x : Exchange κ ι ε σ) (item : ι) :
    (x.serve service item).client = x.client ∧ (x.serve service item).response = x.response ∧
      (x.serve service item).stale = x.stale ∧ (x.serve service item).server = (service.handle x.server item).1 ∧
      (x.serve service item).accepted =
        x.accepted ++ (match (service.handle x.server item).2 with | .ok () => [item] | .error _ => []) := by
  unfold serve
  rcases service.handle x.server item with ⟨server, _ | _⟩ <;> simp

/-- What the server has accepted of the item in flight. -/
def answered (x : Exchange κ ι ε σ) (key : κ) : List ι :=
  match x.response key with
  | some (.ok ()) => (x.client.todo key).take 1
  | _ => []

/-! ## The invariant of the exchange -/

/-- What holds of the exchange of a dispatch of these groups in every state of a run. -/
structure Inv (limit : Nat) (group : κ → List ι) (keyOf : ι → κ) (x : Exchange κ ι ε σ) : Prop where
  client : x.client.Inv limit group
  response : ∀ k, x.response k ≠ none → x.client.inFlight k = true
  accounted : x.client.status = .live →
    x.stale = [] ∧ ∀ k, x.accepted.filter (fun item => keyOf item = k) = x.client.acked k ++ x.answered k
  done : x.client.status = .returned (.ok ()) →
    x.stale = [] ∧ ∀ k, x.accepted.filter (fun item => keyOf item = k) = group k

variable {group : κ → List ι} {keyOf : ι → κ}

/-- A step of the client that moves no item keeps the invariant. -/
theorem Inv.client_step (h : x.Inv limit group keyOf) {c : Dispatch κ ι ε} (hs : x.client.Step limit c)
    (hlive : x.client.status = .live) (hstatus : c.status = .live) (htodo : c.todo = x.client.todo)
    (hacked : c.acked = x.client.acked) (hflight : ∀ k, x.client.inFlight k = true → c.inFlight k = true) :
    Inv limit group keyOf { x with client := c } where
  client := hs.inv h.client
  response k hk := hflight k (h.response k hk)
  accounted _ := by
    refine ⟨(h.accounted hlive).1, ?_⟩
    intro k
    rw [(h.accounted hlive).2 k, answered, answered, hacked, htodo]
  done hok := by
    rw [hstatus] at hok
    cases hok

/-- Every event keeps the invariant. -/
theorem Step.inv (hs : x.Step limit service e x') (h : x.Inv limit group keyOf) (hkey : ∀ k, ∀ item ∈ group k, keyOf item = k) :
    x'.Inv limit group keyOf := by
  have hhead : ∀ k item, (x.client.todo k).head? = some item → keyOf item = k := fun k item hitem =>
    hkey k item (by
      rw [← h.client.split k]
      exact List.mem_append_right _ (List.mem_of_mem_head? hitem))
  -- Once closed without an `Ok`, there is nothing more to account for.
  have hclose : ∀ status, x.client.status = .live → status ≠ .live → status ≠ .returned (.ok ()) →
      (x.close (x.client.close status)).Inv limit group keyOf := fun status _ hne hok =>
    ⟨h.client.close hne fun heq => absurd heq hok, fun k hk => absurd rfl hk, fun hs => absurd hs hne, fun hs => absurd hs hok⟩
  cases hs with
  | start c hc =>
    obtain ⟨key, rest, hlive, hpending, hroom, rfl⟩ := Dispatch.step_start hc
    exact h.client_step (.start key rest hlive hpending hroom) hlive hlive rfl rfl fun _ hk => hk
  | issue key c hc =>
    obtain ⟨item, rest, hlive, hrunning, hidle, htodo, rfl⟩ := Dispatch.step_issue hc
    refine h.client_step (.issue key item rest hlive hrunning hidle htodo) hlive hlive rfl rfl ?_
    intro k hk
    by_cases heq : k = key
    · simp [heq]
    · simpa [heq] using hk
  | finish key c hc =>
    obtain ⟨hlive, hrunning, htodo, rfl⟩ := Dispatch.step_finish hc
    exact h.client_step (.finish key hlive hrunning htodo) hlive hlive rfl rfl fun _ hk => hk
  | complete c hc =>
    obtain ⟨hlive, hpending, hrunning, rfl⟩ := Dispatch.step_complete hc
    have htodo : ∀ k, x.client.todo k = [] := fun k =>
      h.client.left hlive k (by simp [hpending]) (by simp [hrunning])
    refine ⟨(Dispatch.Step.complete hlive hpending hrunning).inv h.client, ?_, nofun, ?_⟩
    · intro k hk
      have hflight := h.client.flight_running k (h.response k hk)
      rw [hrunning] at hflight
      cases hflight
    · intro _
      refine ⟨(h.accounted hlive).1, ?_⟩
      intro k
      have hsplit := h.client.split k
      rw [htodo k, List.append_nil] at hsplit
      rw [(h.accounted hlive).2 k, answered, hsplit, htodo k]
      split <;> simp
  | handle key item hitem =>
    obtain ⟨hflight, hnone, hitem⟩ := unhandled_eq hitem
    obtain ⟨hclient, hresponse, hstale, _, haccepted⟩ := serve_eq service x item
    have hkeyOf := hhead key item hitem
    refine ⟨hclient ▸ h.client, ?_, ?_, ?_⟩
    · intro k hk
      by_cases heq : k = key
      · simp only [hclient, heq]
        exact hflight
      · simp only [hclient, Function.update_of_ne heq] at hk ⊢
        exact h.response k hk
    · intro hlive
      simp only [hclient] at hlive
      refine ⟨hstale.trans (h.accounted hlive).1, ?_⟩
      intro k
      simp only [haccepted, List.filter_append, (h.accounted hlive).2 k, hclient, answered]
      by_cases heq : k = key
      · subst heq
        simp only [Function.update_self, hnone, List.append_nil]
        obtain ⟨rest, htodo⟩ : ∃ rest, x.client.todo k = item :: rest := by
          cases htodo : x.client.todo k with
          | nil => rw [htodo] at hitem; cases hitem
          | cons first rest =>
            rw [htodo, List.head?_cons, Option.some.injEq] at hitem
            exact ⟨rest, by rw [hitem]⟩
        rcases (service.handle x.server item).2 with _ | _ <;> simp [hkeyOf, htodo]
      · have hne : keyOf item ≠ k := by rw [hkeyOf]; exact Ne.symm heq
        simp only [Function.update_of_ne heq]
        rcases (service.handle x.server item).2 with _ | _ <;> simp [hne]
    · intro hok
      simp only [hclient] at hok
      obtain ⟨item', _, hhead'⟩ := h.client.flying key hflight
      rw [h.client.done hok key] at hhead'
      cases hhead'
  | ack key c hr hc =>
    obtain ⟨item, rest, hlive, hflight, htodo, rfl⟩ := Dispatch.step_ack hc
    refine ⟨(Dispatch.Step.ack key item rest hlive hflight htodo).inv h.client, ?_, ?_, ?_⟩
    · intro k hk
      by_cases heq : k = key
      · simp [heq] at hk
      · simp only [Function.update_of_ne heq] at hk ⊢
        exact h.response k hk
    · intro _
      refine ⟨(h.accounted hlive).1, ?_⟩
      intro k
      have hk := (h.accounted hlive).2 k
      by_cases heq : k = key
      · subst heq
        simpa [answered, hr, htodo] using hk
      · simpa [answered, heq] using hk
    · intro hok
      rw [show x.client.status = _ from hok] at hlive
      cases hlive
  | reject key err c hr hc =>
    obtain ⟨hlive, _, rfl⟩ := Dispatch.step_fail hc
    exact hclose _ hlive (by simp) (by simp)
  | lose key err c hc =>
    obtain ⟨hlive, _, rfl⟩ := Dispatch.step_fail hc
    exact hclose _ hlive (by simp) (by simp)
  | drop c hc =>
    obtain ⟨hlive, rfl⟩ := Dispatch.step_drop hc
    exact hclose _ hlive (by simp) (by simp)
  | land index item hitem =>
    obtain ⟨hclient, hresponse, hstale, _, haccepted⟩ := serve_eq service x item
    have hstale_ne : x.stale ≠ [] := by
      rintro hnil
      rw [hnil] at hitem
      cases hitem
    refine ⟨hclient ▸ h.client, ?_, ?_, ?_⟩
    · intro k hk
      simp only [hclient, hresponse] at hk ⊢
      exact h.response k hk
    · intro hlive
      simp only [hclient] at hlive
      exact absurd (h.accounted hlive).1 hstale_ne
    · intro hok
      simp only [hclient] at hok
      exact absurd (h.done hok).1 hstale_ne

/-- An exchange at its beginning satisfies the invariant, when its client does and is not through. -/
theorem inv_new {client : Dispatch κ ι ε} (keyOf : ι → κ) (server : σ) (h : client.Inv limit group)
    (hresponse : ∀ k, client.acked k = []) (hok : client.status ≠ .returned (.ok ())) : (new client server).Inv limit group keyOf where
  client := h
  response k hk := absurd rfl hk
  accounted _ := ⟨rfl, fun k => by simp [new, answered, hresponse k]⟩
  done hs := absurd hs hok

/-- What the server has accepted while the client has not closed is of the dispatch. -/
theorem Inv.accepted_mem (h : x.Inv limit group keyOf) (hlive : x.client.status = .live) {item : ι} (hitem : item ∈ x.accepted) :
    item ∈ group (keyOf item) := by
  have hmem : item ∈ x.client.acked (keyOf item) ++ x.answered (keyOf item) := by
    rw [← (h.accounted hlive).2 (keyOf item)]
    exact List.mem_filter.2 ⟨hitem, by simp⟩
  rw [← h.client.split (keyOf item)]
  refine List.mem_append.2 ((List.mem_append.1 hmem).imp id ?_)
  intro hanswered
  unfold answered at hanswered
  split at hanswered
  · exact List.mem_of_mem_take hanswered
  · cases hanswered

/-- A run keeps the invariant. -/
theorem Inv.run {guard : Exchange κ ι ε σ → Event κ ε → Prop} (h : x.Inv limit group keyOf)
    (hrun : Transition.Run (step limit service) guard x x') (hkey : ∀ k, ∀ item ∈ group k, keyOf item = k) :
    x'.Inv limit group keyOf :=
  hrun.invariant (Inv limit group keyOf) h fun _ _ _ ht _ hs => (step_cases hs).inv ht hkey

/-- Once the client has closed, nothing moves there any more. -/
theorem Step.closed (hs : x.Step limit service e x') (h : x.client.status ≠ .live) : x'.client = x.client := by
  cases hs with
  | start c hc => exact absurd (Dispatch.step_start hc).choose_spec.choose_spec.1 h
  | issue key c hc => exact absurd (Dispatch.step_issue hc).choose_spec.choose_spec.1 h
  | finish key c hc => exact absurd (Dispatch.step_finish hc).1 h
  | complete c hc => exact absurd (Dispatch.step_complete hc).1 h
  | handle key item hitem => exact (serve_eq service x item).1
  | ack key c hr hc => exact absurd (Dispatch.step_ack hc).choose_spec.choose_spec.1 h
  | reject key err c hr hc => exact absurd (Dispatch.step_fail hc).1 h
  | lose key err c hc => exact absurd (Dispatch.step_fail hc).1 h
  | drop c hc => exact absurd (Dispatch.step_drop hc).1 h
  | land index item hitem => exact (serve_eq service x item).1

/-- In no run does anything move at a client that has closed. -/
theorem closed_run {guard : Exchange κ ι ε σ → Event κ ε → Prop} (hrun : Transition.Run (step limit service) guard x x')
    (h : x.client.status ≠ .live) : x'.client = x.client :=
  hrun.invariant (fun t => t.client = x.client) rfl fun _ _ _ ht _ hs =>
    ((step_cases hs).closed (by rw [ht]; exact h)).trans ht

/-- With the client closed, no item in flight and none stale, nothing happens. -/
theorem Step.of_quiet (hs : x.Step limit service e x') (h : x.client.status ≠ .live) (hflight : ∀ k, x.client.inFlight k = false)
    (hstale : x.stale = []) : False := by
  cases hs with
  | start c hc => exact h (Dispatch.step_start hc).choose_spec.choose_spec.1
  | issue key c hc => exact h (Dispatch.step_issue hc).choose_spec.choose_spec.1
  | finish key c hc => exact h (Dispatch.step_finish hc).1
  | complete c hc => exact h (Dispatch.step_complete hc).1
  | handle key item hitem =>
    have := (unhandled_eq hitem).1
    rw [hflight key] at this
    cases this
  | ack key c hr hc => exact h (Dispatch.step_ack hc).choose_spec.choose_spec.1
  | reject key err c hr hc => exact h (Dispatch.step_fail hc).1
  | lose key err c hc => exact h (Dispatch.step_fail hc).1
  | drop c hc => exact h (Dispatch.step_drop hc).1
  | land index item hitem =>
    rw [hstale] at hitem
    cases hitem

end Exchange

end Dispatching
