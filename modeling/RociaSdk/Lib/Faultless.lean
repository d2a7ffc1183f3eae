import Mathlib.Algebra.Order.BigOperators.Group.List
import Mathlib.Algebra.Order.Group.Nat
import Mathlib.Algebra.Ring.Nat
import RociaSdk.Lib.Exchange

/-!
# Runs without faults

Every run of an exchange ends, and one in which nothing is lost and nothing given up can go on until the dispatch has returned.
Among such runs are those that take the groups one at a time, which do what the server does with their items one after another.
-/

namespace Dispatching

/-- The server handles items one after another, up to the first that fails. -/
def Service.serial {σ ι ε : Type} (service : Service σ ι ε) : σ → List ι → Except ε σ
  | server, [] => .ok server
  | server, item :: rest =>
    match service.handle server item with
    | (next, .ok ()) => service.serial next rest
    | (_, .error e) => .error e

namespace Exchange

variable {κ ι ε σ : Type}

/-- An event by which the client gives nothing up. -/
def Event.Faultless : Event κ ε → Prop
  | .lose _ _ => False
  | .drop => False
  | _ => True

variable [DecidableEq κ] {limit : Nat} {service : Service σ ι ε} {x x' : Exchange κ ι ε σ} {e : Event κ ε} {key : κ}

/-- What a run without faults reaches. -/
abbrev Goes (limit : Nat) (service : Service σ ι ε) (x x' : Exchange κ ι ε σ) : Prop :=
  Transition.Run (step limit service) (fun _ e => e.Faultless) x x'

/-! ## They can go on -/

/-- Until the dispatch has closed, something can happen without a fault. -/
theorem enabled (service : Service σ ι ε) (hlimit : 0 < limit) (hlive : x.client.status = .live) :
    ∃ e : Event κ ε, e.Faultless ∧ (x.step limit service e).isSome = true := by
  cases hrunning : x.client.running with
  | nil =>
    cases hpending : x.client.pending with
    | nil => exact ⟨.complete, trivial, by simp [step, Dispatch.complete, hlive, hpending, hrunning]⟩
    | cons key rest => exact ⟨.start, trivial, by simp [step, Dispatch.start, hlive, hpending, hrunning, hlimit]⟩
  | cons key rest =>
    cases htodo : x.client.todo key with
    | nil => exact ⟨.finish key, trivial, by simp [step, Dispatch.finish, hlive, htodo, hrunning]⟩
    | cons item rest =>
      cases hflight : x.client.inFlight key with
      | false => exact ⟨.issue key, trivial, by simp [step, Dispatch.issue, hlive, htodo, hflight, hrunning]⟩
      | true =>
        cases hr : x.response key with
        | none => exact ⟨.handle key, trivial, by simp [step, unhandled, hflight, hr, htodo]⟩
        | some result =>
          cases result with
          | ok _ => exact ⟨.respond key, trivial, by simp [step, hr, Dispatch.ack, hlive, hflight, htodo]⟩
          | error err => exact ⟨.respond key, trivial, by simp [step, hr, Dispatch.fail, hlive, hflight]⟩

/-! ## They end -/

/-- The events an item or a group still has ahead of it: three for each item left, less those behind the first. -/
def ahead (x : Exchange κ ι ε σ) (key : κ) : Nat :=
  3 * (x.client.todo key).length - (if x.client.inFlight key = true then 1 else 0) - (if (x.response key).isSome then 1 else 0)

/-- The events that can still happen, when `keys` names the groups that have items. -/
def work (keys : List κ) (x : Exchange κ ι ε σ) : Nat :=
  x.stale.length +
    match x.client.status with
    | .live => 1 + 2 * x.client.pending.length + x.client.running.length + (keys.map x.ahead).sum
    | _ => 0

omit [DecidableEq κ] in
/-- With what happens to one group, that group has less ahead of it. -/
theorem sum_ahead_lt {keys : List κ} (hmem : key ∈ keys) (hother : ∀ k, k ≠ key → x'.ahead k = x.ahead k)
    (hless : x'.ahead key < x.ahead key) : (keys.map x'.ahead).sum < (keys.map x.ahead).sum := by
  refine List.sum_lt_sum _ _ (?_) ⟨key, hmem, hless⟩
  intro k _
  by_cases hk : k = key
  · exact hk ▸ Nat.le_of_lt hless
  · exact Nat.le_of_eq (hother k hk)

omit [DecidableEq κ] in
/-- The work of an exchange whose client has not closed. -/
theorem work_live (keys : List κ) (hlive : x.client.status = .live) :
    x.work keys =
      x.stale.length + (1 + 2 * x.client.pending.length + x.client.running.length + (keys.map x.ahead).sum) := by
  unfold work
  rw [hlive]

omit [DecidableEq κ] in
/-- What concerns one group and leaves it less ahead leaves less to happen. -/
theorem work_lt_of_ahead {keys : List κ} (key : κ) (hmem : key ∈ keys) (hlive : x.client.status = .live)
    (hlive' : x'.client.status = .live) (hstale : x'.stale = x.stale) (hpending : x'.client.pending = x.client.pending)
    (hrunning : x'.client.running = x.client.running) (hother : ∀ k, k ≠ key → x'.ahead k = x.ahead k)
    (hless : x'.ahead key < x.ahead key) : x'.work keys < x.work keys := by
  have hsum := sum_ahead_lt hmem hother hless
  rw [work_live keys hlive, work_live keys hlive', hstale, hpending, hrunning]
  omega

omit [DecidableEq κ] in
/-- What concerns the server only changes no more than what is stale. -/
theorem work_add (keys : List κ) (hclient : x'.client = x.client) (hresponse : x'.response = x.response) :
    x'.work keys + x.stale.length = x.work keys + x'.stale.length := by
  have hahead : x'.ahead = x.ahead := by
    funext k
    rw [ahead, ahead, hclient, hresponse]
  rw [work, work, hclient, hahead]
  omega

omit [DecidableEq κ] in
/-- Closing leaves less to happen. -/
theorem work_close_lt (keys : List κ) (hlive : x.client.status = .live) {status : Status ε} (hne : status ≠ .live) :
    (x.close (x.client.close status)).work keys < x.work keys := by
  have hstale : (x.close (x.client.close status)).stale.length ≤ x.stale.length + x.client.running.length := by
    simp only [close, List.length_append]
    exact Nat.add_le_add_left (List.length_filterMap_le ..) _
  have hzero : (x.close (x.client.close status)).work keys = (x.close (x.client.close status)).stale.length := by
    cases status with
    | live => exact absurd rfl hne
    | returned result => rfl
    | dropped => rfl
  rw [hzero, work_live keys hlive]
  omega

/-- Every event leaves less to happen. -/
theorem Step.work_lt {group : κ → List ι} {keyOf : ι → κ} {keys : List κ} (hs : x.Step limit service e x')
    (h : x.Inv limit group keyOf) (hkeys : ∀ k, k ∉ keys → group k = []) : x'.work keys < x.work keys := by
  have hmem : ∀ k, x.client.todo k ≠ [] → k ∈ keys := by
    intro k hne
    by_contra hk
    have hsplit := h.client.split k
    rw [hkeys k hk] at hsplit
    exact hne (List.append_eq_nil_iff.1 hsplit).2
  cases hs with
  | start c hc =>
    obtain ⟨key, rest, hlive, hpending, hroom, rfl⟩ := Dispatch.step_start hc
    have hlength : x.client.pending.length = rest.length + 1 := by rw [hpending, List.length_cons]
    rw [work_live keys hlive, work_live keys (by exact hlive), hlength]
    show x.stale.length + (1 + 2 * rest.length + (x.client.running.length + 1) + (keys.map x.ahead).sum) < _
    omega
  | issue key c hc =>
    obtain ⟨item, rest, hlive, hrunning, hidle, htodo, rfl⟩ := Dispatch.step_issue hc
    have hnone : x.response key = none := by
      by_contra hne
      rw [h.response key hne] at hidle
      cases hidle
    refine work_lt_of_ahead key (hmem key (by rw [htodo]; nofun)) hlive hlive rfl rfl rfl (?_) ?_
    · intro k hk
      simp [ahead, Function.update_of_ne hk]
    · simp only [ahead, Function.update_self, hidle, hnone, htodo, List.length_cons, if_true, Bool.false_eq_true, if_false,
        Option.isSome_none]
      omega
  | finish key c hc =>
    obtain ⟨hlive, hrunning, htodo, rfl⟩ := Dispatch.step_finish hc
    have hlength := List.length_erase_of_mem hrunning
    have hpos := List.length_pos_of_mem hrunning
    rw [work_live keys hlive, work_live keys (by exact hlive)]
    show x.stale.length + (1 + 2 * x.client.pending.length + (x.client.running.erase key).length + (keys.map x.ahead).sum) < _
    omega
  | complete c hc =>
    obtain ⟨hlive, hpending, hrunning, rfl⟩ := Dispatch.step_complete hc
    rw [work_live keys hlive]
    show x.stale.length + 0 < _
    omega
  | handle key item hitem =>
    obtain ⟨hflight, hnone, hhead⟩ := unhandled_eq hitem
    obtain ⟨hclient, hresponse, hstale, _⟩ := serve_eq service x item
    have hlive := h.client.live_of_flight hflight
    obtain ⟨rest, htodo⟩ := List.head?_eq_some_iff.1 hhead
    refine work_lt_of_ahead key (hmem key (by rw [htodo]; nofun)) hlive (by rw [← hlive, ← hclient]) hstale
      (by rw [← hclient]) (by rw [← hclient]) (?_) ?_
    · intro k hk
      simp [ahead, Function.update_of_ne hk, hclient]
    · simp [ahead, hclient, hflight, hnone, htodo]
      omega
  | ack key c hr hc =>
    obtain ⟨item, rest, hlive, hflight, htodo, rfl⟩ := Dispatch.step_ack hc
    refine work_lt_of_ahead key (hmem key (by rw [htodo]; nofun)) hlive hlive rfl rfl rfl (?_) ?_
    · intro k hk
      simp [ahead, Function.update_of_ne hk]
    · simp [ahead, hflight, hr, htodo]
      omega
  | reject key err c hr hc =>
    obtain ⟨hlive, _, rfl⟩ := Dispatch.step_fail hc
    exact work_close_lt keys hlive nofun
  | lose key err c hc =>
    obtain ⟨hlive, _, rfl⟩ := Dispatch.step_fail hc
    exact work_close_lt keys hlive nofun
  | drop c hc =>
    obtain ⟨hlive, rfl⟩ := Dispatch.step_drop hc
    exact work_close_lt keys hlive nofun
  | land index item hitem =>
    obtain ⟨hclient, hresponse, hstale, _⟩ := serve_eq service x item
    have hindex : index < x.stale.length := (List.getElem?_eq_some_iff.1 hitem).1
    have hlength := List.length_eraseIdx_of_lt hindex
    refine Nat.lt_of_add_lt_add_right (n := x.stale.length) (lt_of_eq_of_lt (work_add keys hclient hresponse) ?_)
    show x.work keys + (x.stale.eraseIdx index).length < _
    omega

/-- Every run ends: it has no more events than there is work at its beginning. -/
theorem length_le_work {group : κ → List ι} {keyOf : ι → κ} {keys : List κ} (h : x.Inv limit group keyOf)
    (hkey : ∀ k, ∀ item ∈ group k, keyOf item = k) (hkeys : ∀ k, k ∉ keys → group k = []) {events : List (Event κ ε)}
    (hexec : Transition.exec (step limit service) x events = some x') : events.length ≤ x.work keys := by
  induction events generalizing x with
  | nil => exact Nat.zero_le _
  | cons e rest ih =>
    obtain ⟨y, hs, hrest⟩ := Option.bind_eq_some_iff.1 hexec
    have hless := (step_cases hs).work_lt h hkeys
    have hle := ih ((step_cases hs).inv h hkey) hrest
    rw [List.length_cons]
    omega

/-! ## One group at a time -/

/-- A group that is running with nothing in flight. -/
structure Idle (key : κ) (x : Exchange κ ι ε σ) : Prop where
  live : x.client.status = .live
  running : key ∈ x.client.running
  idle : x.client.inFlight key = false
  waiting : x.response key = none

/-- What a run that concerns one group leaves as it was. -/
structure OnlyIn (key : κ) (x x' : Exchange κ ι ε σ) : Prop where
  pending : x'.client.pending = x.client.pending
  running : x'.client.running = x.client.running
  todo : ∀ k, k ≠ key → x'.client.todo k = x.client.todo k
  inFlight : ∀ k, k ≠ key → x'.client.inFlight k = x.client.inFlight k
  response : ∀ k, k ≠ key → x'.response k = x.response k

omit [DecidableEq κ] in
theorem OnlyIn.trans {x'' : Exchange κ ι ε σ} (h : OnlyIn key x x') (h' : OnlyIn key x' x'') : OnlyIn key x x'' where
  pending := h'.pending.trans h.pending
  running := h'.running.trans h.running
  todo k hk := (h'.todo k hk).trans (h.todo k hk)
  inFlight k hk := (h'.inFlight k hk).trans (h.inFlight k hk)
  response k hk := (h'.response k hk).trans (h.response k hk)

/-- The next group of the stream can be started, which touches no group. -/
theorem start_idle (limit : Nat) (service : Service σ ι ε) {rest : List κ} (hlive : x.client.status = .live)
    (hpending : x.client.pending = key :: rest) (hroom : x.client.running.length < limit) (hidle : x.client.inFlight key = false)
    (hwaiting : x.response key = none) :
    ∃ x', Goes limit service x x' ∧ x'.Idle key ∧ x'.client.pending = rest ∧ x'.client.running = key :: x.client.running ∧
      x'.client.todo = x.client.todo ∧ x'.client.inFlight = x.client.inFlight ∧ x'.response = x.response ∧
      x'.server = x.server := by
  have hstart : x.step limit service .start =
      some { x with client := { x.client with pending := rest, running := key :: x.client.running } } := by
    simp [step, Dispatch.start, hlive, hpending, hroom]
  exact ⟨_, Transition.Run.refl.tail .start trivial hstart, ⟨hlive, List.mem_cons_self .., hidle, hwaiting⟩, rfl, rfl, rfl, rfl,
    rfl, rfl⟩

/-- The next item of an idle group can be issued and handled. -/
theorem Idle.handled (h : x.Idle key) (limit : Nat) (service : Service σ ι ε) {item : ι} {rest : List ι}
    (htodo : x.client.todo key = item :: rest) :
    ∃ x', Goes limit service x x' ∧ OnlyIn key x x' ∧ x'.client.status = .live ∧ key ∈ x'.client.running ∧
      x'.client.inFlight key = true ∧ x'.client.todo key = item :: rest ∧
      x'.server = (service.handle x.server item).1 ∧ x'.response key = some (service.handle x.server item).2 := by
  obtain ⟨hlive, hrunning, hidle, hwaiting⟩ := h
  let client : Dispatch κ ι ε :=
    { x.client with
      inFlight := Function.update x.client.inFlight key true
      issued := Function.update x.client.issued key (x.client.issued key ++ [item]) }
  have hissue : x.step limit service (.issue key) = some { x with client := client } := by
    simp [step, Dispatch.issue, hlive, htodo, hrunning, hidle, client]
  have hunhandled : unhandled { x with client := client } key = some item := by
    simp [unhandled, hwaiting, htodo, client]
  obtain ⟨hclient, hresponse, _, hserver, _⟩ := serve_eq service { x with client := client } item
  have hhandle := congrArg (Option.map fun item' =>
    { serve service { x with client := client } item' with
      response := Function.update x.response key (some (service.handle x.server item').2) }) hunhandled
  refine ⟨_, (Transition.Run.refl.tail (.issue key) trivial hissue).tail (.handle key) trivial hhandle, ?_, ?_, ?_, ?_, ?_,
    hserver, Function.update_self ..⟩
  · constructor
    · rw [hclient]
    · rw [hclient]
    · intro k _
      rw [hclient]
    · intro k hk
      rw [hclient]
      exact Function.update_of_ne hk ..
    · intro k hk
      exact Function.update_of_ne hk ..
  · rw [hclient]
    exact hlive
  · rw [hclient]
    exact hrunning
  · rw [hclient]
    exact Function.update_self ..
  · rw [hclient]
    exact htodo

/-- An idle group whose next item the server rejects can fail the dispatch. -/
theorem Idle.reject (h : x.Idle key) (limit : Nat) (service : Service σ ι ε) {item : ι} {rest : List ι}
    (htodo : x.client.todo key = item :: rest) {err : ε}
    (herror : (service.handle x.server item).2 = .error err) :
    ∃ x', Goes limit service x x' ∧ x'.client.status = .returned (.error err) := by
  obtain ⟨y, hrun, _, hlive, _, hflight, _, _, hresponse⟩ := h.handled limit service htodo
  rw [herror] at hresponse
  have hrespond : y.step limit service (.respond key) = some (y.close (y.client.close (.returned (.error err)))) := by
    simp [step, hresponse, Dispatch.fail, hlive, hflight]
  exact ⟨_, hrun.tail (.respond key) trivial hrespond, rfl⟩

/-- An idle group whose next item the server accepts can go on to the next. -/
theorem Idle.accept (h : x.Idle key) (limit : Nat) (service : Service σ ι ε) {item : ι} {rest : List ι}
    (htodo : x.client.todo key = item :: rest)
    (hok : (service.handle x.server item).2 = .ok ()) :
    ∃ x', Goes limit service x x' ∧ x'.Idle key ∧ x'.client.todo key = rest ∧
      x'.server = (service.handle x.server item).1 ∧ OnlyIn key x x' := by
  obtain ⟨y, hrun, honly, hlive, hrunning, hflight, htodo', hserver, hresponse⟩ :=
    h.handled limit service htodo
  rw [hok] at hresponse
  let client : Dispatch κ ι ε :=
    { y.client with
      todo := Function.update y.client.todo key rest
      inFlight := Function.update y.client.inFlight key false
      acked := Function.update y.client.acked key (y.client.acked key ++ [item]) }
  have hrespond : y.step limit service (.respond key) =
      some { y with client := client, response := Function.update y.response key none } := by
    simp [step, hresponse, Dispatch.ack, hlive, hflight, htodo', client]
  refine ⟨_, hrun.tail (.respond key) trivial hrespond, ⟨hlive, hrunning, Function.update_self .., Function.update_self ..⟩,
    Function.update_self .., hserver, honly.trans ⟨rfl, rfl, fun k hk => ?_, fun k hk => ?_, fun k hk => ?_⟩⟩
  all_goals exact Function.update_of_ne hk ..

/-- An idle group can be taken through its next items alone: as far as the server accepts them one after another. -/
theorem Idle.advance (h : x.Idle key) (limit : Nat) (service : Service σ ι ε) {items rest : List ι}
    (htodo : x.client.todo key = items ++ rest) :
    match service.serial x.server items with
    | .ok server => ∃ x', Goes limit service x x' ∧ x'.Idle key ∧ x'.client.todo key = rest ∧ x'.server = server ∧
        OnlyIn key x x'
    | .error err => ∃ x', Goes limit service x x' ∧ x'.client.status = .returned (.error err) := by
  induction items generalizing x with
  | nil => exact ⟨x, .refl, h, htodo, rfl, rfl, rfl, fun _ _ => rfl, fun _ _ => rfl, fun _ _ => rfl⟩
  | cons item items ih =>
    cases hresult : (service.handle x.server item).2 with
    | error err =>
      have hserial : service.serial x.server (item :: items) = .error err := by
        unfold Service.serial
        rw [← Prod.mk.eta (p := service.handle x.server item), hresult]
      rw [hserial]
      exact h.reject limit service htodo hresult
    | ok _ =>
      obtain ⟨y, hrun, hidle, htodo', hserver, honly⟩ := h.accept limit service htodo hresult
      have hserial : service.serial x.server (item :: items) = service.serial y.server items := by
        rw [Service.serial, ← Prod.mk.eta (p := service.handle x.server item), hresult, hserver]
      rw [hserial]
      have hrest := ih hidle htodo'
      cases hs : service.serial y.server items with
      | error err =>
        rw [hs] at hrest
        obtain ⟨z, hrun', hfail⟩ := hrest
        exact ⟨z, hrun.trans hrun', hfail⟩
      | ok server =>
        rw [hs] at hrest
        obtain ⟨z, hrun', hidle', htodo'', hserver', honly'⟩ := hrest
        exact ⟨z, hrun.trans hrun', hidle', htodo'', hserver', honly.trans honly'⟩

end Exchange

end Dispatching
