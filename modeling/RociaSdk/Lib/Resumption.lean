import RociaSdk.Lib.Exchange

/-!
# A batch that is dispatched again

A batch is dispatched to a server that others use as well, and dispatched again after each run that failed or was dropped. What a
run has left in flight may reach the server at any time, and an item in flight may be sent once more. If the server applies each
item once (`AppliesOnce`), then of each group it has applied the first items, in order (`Inv.run`), and all of them once a run has
returned `Ok` (`Inv.all_applied`).
-/

namespace Dispatching

namespace Resumption

variable {κ ι ε σ α : Type} [DecidableEq κ]

/-- What can happen while a batch is dispatched and dispatched again. -/
inductive Event (κ ι ε α : Type) where
  | exchange (e : Exchange.Event κ ε)
  /-- The item in flight of a group is sent once more. What was sent before may still reach the server. -/
  | resend (key : κ)
  /-- Something happens at the server that is not of the batch. -/
  | other (a : α)
  /-- The batch is dispatched again. -/
  | again (client : Dispatch κ ι ε)

/-- What such an event does, if it can happen: the batch is dispatched again only when it has not returned `Ok`. -/
def step (limit : Nat) (service : Service σ ι ε) (other : σ → α → σ) (x : Exchange κ ι ε σ) :
    Event κ ι ε α → Option (Exchange κ ι ε σ)
  | .exchange e => x.step limit service e
  | .resend key =>
    if x.client.inFlight key = true then
      some { x with stale := x.stale ++ (x.unhandled key).toList, response := Function.update x.response key none }
    else none
  | .other a => some { x with server := other x.server a }
  | .again client =>
    match x.client.status with
    | .live => none
    | .returned (.ok ()) => none
    | _ => some { x with client := client, response := fun _ => none }

/-! ## What has been applied -/

/-- A server that has applied some items of a batch, `applied` of them, each in its turn: it applies one that it accepts unless it
has already, and nothing else changes what it has applied. `Valid` is what its states have in common. -/
structure AppliesOnce (service : Service σ ι ε) (other : σ → α → σ) (Allowed : α → Prop) (Item : ι → Prop) (Valid : σ → Prop)
    (applied : σ → List ι) : Prop where
  accepts : ∀ s item, Valid s → Item item → (service.handle s item).2 = .ok () →
    item ∈ applied s ∧ applied (service.handle s item).1 = applied s ∨
      item ∉ applied s ∧ applied (service.handle s item).1 = applied s ++ [item]
  refuses : ∀ s item e, Valid s → Item item → (service.handle s item).2 = .error e →
    applied (service.handle s item).1 = applied s
  others : ∀ s a, Valid s → Allowed a → applied (other s a) = applied s
  valid_handle : ∀ s item, Valid s → Item item → Valid (service.handle s item).1
  valid_other : ∀ s a, Valid s → Allowed a → Valid (other s a)

/-- The items of a group among those that have been applied. -/
def appliedTo (keyOf : ι → κ) (applied : List ι) (k : κ) : List ι := applied.filter fun item => keyOf item = k

/-- An item before which the items before it in its group have been applied. -/
def Ready (group : κ → List ι) (keyOf : ι → κ) (applied : List ι) (item : ι) : Prop :=
  ∃ before, before ++ [item] <+: group (keyOf item) ∧ before <+: appliedTo keyOf applied (keyOf item)

variable {group : κ → List ι} {keyOf : ι → κ} {applied applied' : List ι} {item : ι}

theorem appliedTo_append (keyOf : ι → κ) (applied : List ι) (item : ι) (k : κ) :
    appliedTo keyOf (applied ++ [item]) k = appliedTo keyOf applied k ++ if keyOf item = k then [item] else [] := by
  by_cases hk : keyOf item = k <;> simp [appliedTo, hk]

theorem mem_appliedTo : item ∈ appliedTo keyOf applied (keyOf item) ↔ item ∈ applied := by
  simp [appliedTo]

omit [DecidableEq κ] in
/-- Of two beginnings of a list of distinct items, one of which ends with an item, the other has it in the same place, or is no longer
than what is before it. -/
theorem prefix_cases {l before other : List ι} (hb : before ++ [item] <+: l) (ho : other <+: l) :
    before ++ [item] <+: other ∨ other <+: before := by
  rcases List.prefix_or_prefix_of_prefix hb ho with h | h
  · exact .inl h
  · rcases List.prefix_concat_iff.1 h with rfl | h
    · exact .inl (List.prefix_refl _)
    · exact .inr h

/-- An item that is ready and has been applied was applied after those before it. -/
theorem known {before : List ι} (hnodup : (group (keyOf item)).Nodup)
    (happlied : appliedTo keyOf applied (keyOf item) <+: group (keyOf item)) (hpre : before ++ [item] <+: group (keyOf item))
    (hmem : item ∈ applied) : before ++ [item] <+: appliedTo keyOf applied (keyOf item) := by
  rcases prefix_cases hpre happlied with hdone | hshort
  · exact hdone
  · have hbefore : item ∈ before := hshort.subset (mem_appliedTo.2 hmem)
    have hdistinct : (before ++ [item]).Nodup := hpre.sublist.nodup hnodup
    exact absurd rfl ((List.nodup_append.1 hdistinct).2.2 item hbefore item (List.mem_singleton_self item))

/-- An item that is ready and has not been applied is the next of its group. -/
theorem unknown {before : List ι} (happlied : appliedTo keyOf applied (keyOf item) <+: group (keyOf item))
    (hpre : before ++ [item] <+: group (keyOf item)) (hbefore : before <+: appliedTo keyOf applied (keyOf item))
    (hmem : item ∉ applied) : appliedTo keyOf applied (keyOf item) = before := by
  rcases prefix_cases hpre happlied with hdone | hshort
  · exact absurd (mem_appliedTo.1 (hdone.subset (by simp))) hmem
  · exact hshort.eq_of_length_le hbefore.length_le

/-- What becomes of what has been applied when an item that is ready is accepted: the beginnings of the groups stay, nothing is taken
back, and the item has been applied after those before it. -/
theorem taken {before : List ι} (hnodup : ∀ k, (group k).Nodup) (happlied : ∀ k, appliedTo keyOf applied k <+: group k)
    (hpre : before ++ [item] <+: group (keyOf item)) (hbefore : before <+: appliedTo keyOf applied (keyOf item))
    (htakes : item ∈ applied ∧ applied' = applied ∨ item ∉ applied ∧ applied' = applied ++ [item]) :
    (∀ k, appliedTo keyOf applied' k <+: group k) ∧ (∀ k, appliedTo keyOf applied k <+: appliedTo keyOf applied' k) ∧
      before ++ [item] <+: appliedTo keyOf applied' (keyOf item) := by
  rcases htakes with ⟨hmem, rfl⟩ | ⟨hmem, rfl⟩
  · exact ⟨happlied, fun k => List.prefix_refl _, known (hnodup _) (happlied _) hpre hmem⟩
  · have hnext := unknown (happlied _) hpre hbefore hmem
    refine ⟨fun k => ?_, fun k => ?_, ?_⟩
    · rw [appliedTo_append]
      split
      · rename_i hk
        subst hk
        rw [hnext]
        exact hpre
      · rw [List.append_nil]
        exact happlied k
    · rw [appliedTo_append]
      exact List.prefix_append _ _
    · rw [appliedTo_append, if_pos rfl]
      exact ⟨[], by rw [hnext, List.append_nil]⟩

theorem Ready.mono (h : Ready group keyOf applied item)
    (hmono : appliedTo keyOf applied (keyOf item) <+: appliedTo keyOf applied' (keyOf item)) :
    Ready group keyOf applied' item := by
  obtain ⟨before, hpre, hbefore⟩ := h
  exact ⟨before, hpre, hbefore.trans hmono⟩

/-! ## The invariant -/

/-- What holds of a batch and its server in every state of its runs. -/
structure Inv (limit : Nat) (group : κ → List ι) (keyOf : ι → κ) (Valid : σ → Prop) (applied : σ → List ι)
    (x : Exchange κ ι ε σ) : Prop where
  client : x.client.Inv limit group
  valid : Valid x.server
  isPrefix : ∀ k, appliedTo keyOf (applied x.server) k <+: group k
  acked : ∀ k, x.client.acked k <+: appliedTo keyOf (applied x.server) k
  answered : ∀ k item, x.response k = some (.ok ()) → (x.client.todo k).head? = some item →
    x.client.acked k ++ [item] <+: appliedTo keyOf (applied x.server) k
  stale : ∀ item ∈ x.stale, Ready group keyOf (applied x.server) item

variable {limit : Nat} {service : Service σ ι ε} {other : σ → α → σ} {Allowed : α → Prop} {Valid : σ → Prop}
  {appliedBy : σ → List ι} {x x' : Exchange κ ι ε σ} {k : κ}

/-- The first item left of a group comes after what has been acknowledged. -/
theorem Inv.next (h : Inv limit group keyOf Valid appliedBy x) (hitem : (x.client.todo k).head? = some item) :
    x.client.acked k ++ [item] <+: group k := by
  obtain ⟨rest, hrest⟩ := List.head?_eq_some_iff.1 hitem
  rw [← h.client.split k, hrest]
  exact ⟨rest, by simp⟩

section

variable (hkey : ∀ k, ∀ item ∈ group k, keyOf item = k)
include hkey

theorem Inv.key_eq (h : Inv limit group keyOf Valid appliedBy x) (hitem : (x.client.todo k).head? = some item) : keyOf item = k :=
  hkey k item ((h.next hitem).subset (by simp))

/-- The first item left of a group is ready. -/
theorem Inv.ready (h : Inv limit group keyOf Valid appliedBy x) (hitem : (x.client.todo k).head? = some item) :
    Ready group keyOf (appliedBy x.server) item := by
  obtain rfl := h.key_eq hkey hitem
  exact ⟨_, h.next hitem, h.acked _⟩

/-- The item in flight that has not been handled is ready. -/
theorem Inv.ready_unhandled (h : Inv limit group keyOf Valid appliedBy x) (hitem : x.unhandled k = some item) :
    Ready group keyOf (appliedBy x.server) item :=
  h.ready hkey (Exchange.unhandled_eq hitem).2.2

/-- Closing the client keeps the invariant: what goes stale is ready. -/
theorem Inv.close (h : Inv limit group keyOf Valid appliedBy x) {status : Dispatching.Status ε} (hne : status ≠ .live)
    (hok : status ≠ .returned (.ok ())) : Inv limit group keyOf Valid appliedBy (x.close (x.client.close status)) where
  client := h.client.close hne fun heq => absurd heq hok
  valid := h.valid
  isPrefix := h.isPrefix
  acked := h.acked
  answered k item hk := by cases hk
  stale item hitem := by
    rcases List.mem_append.1 hitem with hitem | hitem
    · exact h.stale item hitem
    · obtain ⟨k, -, hk⟩ := List.mem_filterMap.1 hitem
      have hready := h.ready_unhandled hkey hk
      exact hready

omit hkey in
/-- A step of the client that moves no item keeps the invariant. -/
theorem Inv.client_step (h : Inv limit group keyOf Valid appliedBy x) {c : Dispatch κ ι ε} (hs : x.client.Step limit c)
    (htodo : c.todo = x.client.todo) (hacked : c.acked = x.client.acked) :
    Inv limit group keyOf Valid appliedBy { x with client := c } where
  client := hs.inv h.client
  valid := h.valid
  isPrefix := h.isPrefix
  acked := by simpa only [hacked] using h.acked
  answered := by simpa only [htodo, hacked] using h.answered
  stale := h.stale

variable (honce : AppliesOnce service other Allowed (fun item => ∃ k, item ∈ group k) Valid appliedBy)
  (hnodup : ∀ k, (group k).Nodup)
include honce hnodup

omit hkey in
/-- What serving an item that is ready makes of what has been applied. -/
theorem Inv.served (h : Inv limit group keyOf Valid appliedBy x) {before : List ι}
    (hpre : before ++ [item] <+: group (keyOf item)) (hbefore : before <+: appliedTo keyOf (appliedBy x.server) (keyOf item)) :
    Valid (service.handle x.server item).1 ∧
      (∀ k, appliedTo keyOf (appliedBy (service.handle x.server item).1) k <+: group k) ∧
      (∀ k, appliedTo keyOf (appliedBy x.server) k <+: appliedTo keyOf (appliedBy (service.handle x.server item).1) k) ∧
      ((service.handle x.server item).2 = .ok () →
        before ++ [item] <+: appliedTo keyOf (appliedBy (service.handle x.server item).1) (keyOf item)) := by
  have hitem : ∃ k, item ∈ group k := ⟨_, hpre.subset (by simp)⟩
  refine ⟨honce.valid_handle _ _ h.valid hitem, ?_⟩
  cases hresult : (service.handle x.server item).2 with
  | ok u =>
    obtain ⟨happlied, hmono, hserved⟩ := taken hnodup h.isPrefix hpre hbefore (honce.accepts _ _ h.valid hitem hresult)
    exact ⟨happlied, hmono, fun _ => hserved⟩
  | error e =>
    rw [honce.refuses _ _ e h.valid hitem hresult]
    exact ⟨h.isPrefix, fun _ => List.prefix_refl _, nofun⟩

omit hkey in
/-- Serving an item that is ready keeps the invariant. -/
theorem Inv.serve (h : Inv limit group keyOf Valid appliedBy x) (hready : Ready group keyOf (appliedBy x.server) item) :
    Inv limit group keyOf Valid appliedBy (x.serve service item) := by
  obtain ⟨before, hpre, hbefore⟩ := hready
  obtain ⟨hvalid, happlied, hmono, -⟩ := h.served honce hnodup hpre hbefore
  obtain ⟨hclient, hresponse, hstale, hserver, -⟩ := Exchange.serve_eq service x item
  refine ⟨hclient ▸ h.client, ?_, ?_, ?_, ?_, ?_⟩
  · rwa [hserver]
  · rwa [hserver]
  · rw [hclient, hserver]
    exact fun k => (h.acked k).trans (hmono k)
  · rw [hclient, hserver, hresponse]
    exact fun k item' hk hitem' => (h.answered k item' hk hitem').trans (hmono k)
  · rw [hstale, hserver]
    exact fun item' hitem' => (h.stale item' hitem').mono (hmono _)

/-- Every event of the exchange keeps the invariant. -/
theorem Inv.exchange (h : Inv limit group keyOf Valid appliedBy x) {e : Exchange.Event κ ε} (hs : x.Step limit service e x') :
    Inv limit group keyOf Valid appliedBy x' := by
  cases hs with
  | start c hc =>
    obtain ⟨key, rest, hlive, hpending, hroom, rfl⟩ := Dispatch.step_start hc
    exact h.client_step (.start key rest hlive hpending hroom) rfl rfl
  | issue key c hc =>
    obtain ⟨item, rest, hlive, hrunning, hidle, htodo, rfl⟩ := Dispatch.step_issue hc
    exact h.client_step (.issue key item rest hlive hrunning hidle htodo) rfl rfl
  | finish key c hc =>
    obtain ⟨hlive, hrunning, htodo, rfl⟩ := Dispatch.step_finish hc
    exact h.client_step (.finish key hlive hrunning htodo) rfl rfl
  | complete c hc =>
    obtain ⟨hlive, hpending, hrunning, rfl⟩ := Dispatch.step_complete hc
    exact h.client_step (.complete hlive hpending hrunning) rfl rfl
  | handle key item hitem =>
    have hhead := (Exchange.unhandled_eq hitem).2.2
    have hserve := h.serve honce hnodup (h.ready hkey hhead)
    obtain ⟨hclient, hresponse, -, hserver, -⟩ := Exchange.serve_eq service x item
    refine ⟨hserve.client, hserve.valid, hserve.isPrefix, hserve.acked, ?_, hserve.stale⟩
    intro k item' hk hitem'
    by_cases heq : k = key
    · subst heq
      simp only [hclient, hhead, Option.some.injEq] at hitem'
      subst hitem'
      obtain rfl := h.key_eq hkey hhead
      simp only [Function.update_self, Option.some.injEq] at hk
      simp only [hclient, hserver]
      exact (h.served honce hnodup (h.next hhead) (h.acked _)).2.2.2 hk
    · simp only [Function.update_of_ne heq] at hk
      exact hserve.answered k item' (by rw [hresponse]; exact hk) hitem'
  | ack key c hr hc =>
    obtain ⟨item, rest, hlive, hflight, htodo, rfl⟩ := Dispatch.step_ack hc
    refine ⟨(Dispatch.Step.ack key item rest hlive hflight htodo).inv h.client, h.valid, h.isPrefix, ?_, ?_, h.stale⟩
    · intro k
      by_cases heq : k = key
      · subst heq
        simp only [Function.update_self]
        exact h.answered k item hr (by rw [htodo]; rfl)
      · simp only [Function.update_of_ne heq]
        exact h.acked k
    · intro k item' hk hitem'
      by_cases heq : k = key
      · simp [heq] at hk
      · simp only [Function.update_of_ne heq] at hk hitem' ⊢
        exact h.answered k item' hk hitem'
  | reject key e c _ hc =>
    obtain ⟨-, -, rfl⟩ := Dispatch.step_fail hc
    exact h.close hkey nofun nofun
  | lose key e c hc =>
    obtain ⟨-, -, rfl⟩ := Dispatch.step_fail hc
    exact h.close hkey nofun nofun
  | drop c hc =>
    obtain ⟨-, rfl⟩ := Dispatch.step_drop hc
    exact h.close hkey nofun nofun
  | land index item hitem =>
    have hserve := h.serve honce hnodup (h.stale item (List.mem_of_getElem? hitem))
    refine ⟨hserve.client, hserve.valid, hserve.isPrefix, hserve.acked, hserve.answered, ?_⟩
    intro item' hitem'
    refine hserve.stale item' ?_
    rw [(Exchange.serve_eq service x item).2.2.1]
    exact List.mem_of_mem_eraseIdx hitem'

/-- Every event keeps the invariant, if what others do is allowed and a batch that is dispatched again begins with the same groups. -/
theorem Inv.step {e : Event κ ι ε α} (h : Inv limit group keyOf Valid appliedBy x) (hs : step limit service other x e = some x')
    (hallowed : ∀ a, e = .other a → Allowed a)
    (hagain : ∀ client, e = .again client → client.Inv limit group ∧ ∀ k, client.acked k = []) :
    Inv limit group keyOf Valid appliedBy x' := by
  cases e with
  | exchange e => exact h.exchange hkey honce hnodup (Exchange.step_cases hs)
  | resend key =>
    simp only [Resumption.step, Option.ite_none_right_eq_some, Option.some.injEq] at hs
    obtain ⟨-, rfl⟩ := hs
    refine ⟨h.client, h.valid, h.isPrefix, h.acked, ?_, ?_⟩
    · intro k item hk hitem
      by_cases heq : k = key
      · simp [heq] at hk
      · simp only [Function.update_of_ne heq] at hk
        exact h.answered k item hk hitem
    · intro item hitem
      rcases List.mem_append.1 hitem with hitem | hitem
      · exact h.stale item hitem
      · have hready := h.ready_unhandled hkey (Option.mem_toList.1 hitem)
        exact hready
  | other a =>
    cases hs
    have hsame := honce.others _ a h.valid (hallowed a rfl)
    refine ⟨h.client, honce.valid_other _ a h.valid (hallowed a rfl), ?_, ?_, ?_, ?_⟩
    · simpa only [hsame] using h.isPrefix
    · simpa only [hsame] using h.acked
    · simpa only [hsame] using h.answered
    · simpa only [hsame] using h.stale
  | again client =>
    obtain ⟨hclient, hacked⟩ := hagain client rfl
    have hx' : x' = { x with client := client, response := fun _ => none } := by
      simp only [Resumption.step] at hs
      split at hs
      · cases hs
      · cases hs
      · exact (Option.some.inj hs).symm
    subst hx'
    exact ⟨hclient, h.valid, h.isPrefix, fun k => by simp [hacked k], nofun, h.stale⟩

/-- A run keeps the invariant. -/
theorem Inv.run {guard : Exchange κ ι ε σ → Event κ ι ε α → Prop} (h : Inv limit group keyOf Valid appliedBy x)
    (hrun : Transition.Run (Resumption.step limit service other) guard x x')
    (hallowed : ∀ x a, guard x (.other a) → Allowed a)
    (hagain : ∀ x client, guard x (.again client) → client.Inv limit group ∧ ∀ k, client.acked k = []) :
    Inv limit group keyOf Valid appliedBy x' := by
  refine hrun.invariant (Inv limit group keyOf Valid appliedBy) h ?_
  intro t e u ht hguard hs
  refine ht.step hkey honce hnodup hs ?_ ?_
  · rintro a rfl
    exact hallowed t a hguard
  · rintro client rfl
    exact hagain t client hguard

end

/-- A batch that has applied nothing satisfies the invariant when it starts. -/
theorem inv_new {client : Dispatch κ ι ε} {server : σ} (hclient : client.Inv limit group) (hacked : ∀ k, client.acked k = [])
    (hvalid : Valid server) (hnone : appliedBy server = []) : Inv limit group keyOf Valid appliedBy (.new client server) where
  client := hclient
  valid := hvalid
  isPrefix k := by simp [Exchange.new, hnone, appliedTo]
  acked k := by simp [Exchange.new, hacked k]
  answered := nofun
  stale := nofun

/-- A batch that has returned `Ok` has been applied, each group in its order. -/
theorem Inv.all_applied (h : Inv limit group keyOf Valid appliedBy x) (hok : x.client.status = .returned (.ok ())) (k : κ) :
    appliedTo keyOf (appliedBy x.server) k = group k := by
  have hacked := h.acked k
  rw [(h.client.all_acked (h.client.done hok k)).2] at hacked
  exact (h.isPrefix k).eq_of_length_le hacked.length_le

/-- Nothing is applied twice. -/
theorem Inv.nodup (h : Inv limit group keyOf Valid appliedBy x) (hnodup : ∀ k, (group k).Nodup) : (appliedBy x.server).Nodup := by
  classical
  rw [List.nodup_iff_count_le_one]
  intro item
  have hcount : (appliedBy x.server).count item = (appliedTo keyOf (appliedBy x.server) (keyOf item)).count item := by
    unfold appliedTo
    rw [List.count_filter (by simp)]
  rw [hcount]
  exact List.nodup_iff_count_le_one.1 ((h.isPrefix _).sublist.nodup (hnodup _)) item

end Resumption

end Dispatching
