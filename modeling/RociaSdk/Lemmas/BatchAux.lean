import Mathlib.Data.List.Dedup
import RociaSdk.Graph
import RociaSdk.Lib.Grouping

/-!
# Groups and requests of a batch

What `group_preserving_order` and the request builders of a batch give, and the client they start.
-/

namespace RociaSdk

open Dispatching

/-! ## Groups -/

namespace BatchAux

variable {ι : Type} {key : ι → String}

/-- Pushing the items of a list onto a map of groups appends to each group its own. -/
theorem foldl_push (items : List ι) (groups : Groups ι) (k : String) :
    (items.foldl (fun groups item => groups.push (key item) item) groups) k =
      if items.any (fun item => key item = k) then some ((groups k).getD [] ++ items.filter (fun item => key item = k))
      else groups k := by
  induction items generalizing groups with
  | nil => rfl
  | cons item rest ih =>
    rw [List.foldl_cons, ih]
    by_cases hk : key item = k
    · subst hk
      cases hrest : rest.any (fun item' => key item' = key item) with
      | true => simp [hrest, Groups.push]
      | false =>
        have hfilter : rest.filter (fun item' => key item' = key item) = [] := by
          rw [List.filter_eq_nil_iff]
          exact List.any_eq_false.1 hrest
        simp [hrest, Groups.push, hfilter]
    · have hne : k ≠ key item := Ne.symm hk
      simp [Groups.push, Function.update_of_ne hne, hk]

/-- The group of a key is what the batch has for it, in its order. -/
theorem group_eq (items : List ι) (k : String) :
    (groupPreservingOrder items key k).getD [] = items.filter (fun item => key item = k) := by
  unfold groupPreservingOrder
  rw [foldl_push]
  split
  · simp
  · rename_i hany
    rw [Option.getD_none, eq_comm, List.filter_eq_nil_iff]
    simpa using hany

/-- There is a group for each key of the batch. -/
theorem group_isSome (items : List ι) (k : String) :
    (groupPreservingOrder items key k).isSome = true ↔ ∃ item ∈ items, key item = k := by
  unfold groupPreservingOrder
  rw [foldl_push]
  split
  · rename_i hany
    simpa using hany
  · rename_i hany
    simpa using hany

/-- The keys of the items, each once, are an order of the map. -/
theorem isOrder_of_keys {items : List ι} {order : List String} (hnodup : order.Nodup) (hkeys : ∀ k, k ∈ order ↔ k ∈ items.map key) :
    (groupPreservingOrder items key).IsOrder order := by
  refine ⟨hnodup, ?_⟩
  intro k
  rw [group_isSome, hkeys, List.mem_map]

/-- The map has an order. -/
theorem exists_isOrder (items : List ι) (key : ι → String) : ∃ order, (groupPreservingOrder items key).IsOrder order :=
  ⟨(items.map key).dedup, isOrder_of_keys (List.nodup_dedup _) fun _ => List.mem_dedup⟩

/-- In whatever order the map gives its values, they are the groups of the keys in that order. -/
theorem intoValues_eq {items : List ι} {order : List String} (h : (groupPreservingOrder items key).IsOrder order) :
    (groupPreservingOrder items key).intoValues order = Grouping.groups key order items := by
  have hsome : ∀ k ∈ order, groupPreservingOrder items key k = some (items.filter fun item => key item = k) := by
    intro k hk
    obtain ⟨group, hgroup⟩ := Option.isSome_iff_exists.1 ((h.mem_iff k).1 hk)
    rw [← group_eq items k, hgroup, Option.getD_some]
  unfold Groups.intoValues Grouping.groups
  rw [List.filterMap_congr hsome, ← List.filterMap_eq_map]
  rfl

/-- Every key of the batch is in an order of the map. -/
theorem mem_of_isOrder {items : List ι} {order : List String} (h : (groupPreservingOrder items key).IsOrder order) :
    ∀ item ∈ items, key item ∈ order :=
  fun item hitem => (h.mem_iff _).2 ((group_isSome items _).2 ⟨item, hitem, rfl⟩)

/-- An order of the map names every group that has items, once. -/
theorem nil_of_not_mem {items : List ι} {order : List String} (h : (groupPreservingOrder items key).IsOrder order) (k : String)
    (hk : k ∉ order) : items.filter (fun item => key item = k) = [] := by
  rw [List.filter_eq_nil_iff]
  intro item hitem heq
  exact hk ((h.mem_iff k).2 ((group_isSome items k).2 ⟨item, hitem, by simpa using heq⟩))

/-- The dispatch of a batch that could be built starts with the groups of its requests. -/
theorem dispatchBatch_ok (items : List ι) (order : List String) :
    dispatchBatch key order (.ok items) = .new order fun k => items.filter fun item => key item = k := by
  simp only [dispatchBatch, group_eq]

/-- The client of a batch satisfies the invariant when it starts. -/
theorem inv_batch {items : List ι} {order : List String} (limit : Nat) (h : (groupPreservingOrder items key).IsOrder order) :
    (dispatchBatch key order (.ok items)).Inv limit fun k => items.filter fun item => key item = k := by
  rw [dispatchBatch_ok]
  exact Dispatch.inv_new h.nodup (nil_of_not_mem h)

/-- The items of a group have its key. -/
theorem key_of_mem (items : List ι) (k : String) :
    ∀ item ∈ items.filter (fun item => key item = k), key item = k := by
  intro item hitem
  simpa using (List.mem_filter.1 hitem).2

/-! ## Requests -/

variable {α β : Type} {build : String → α → Result β} {uuids : Nat → String}

/-- A sequence that succeeds succeeds in both parts. -/
theorem bind_ok {γ δ : Type} {first : Result γ} {next : γ → Result δ} {d : δ} (h : first >>= next = .ok d) :
    ∃ c, first = .ok c ∧ next c = .ok d := by
  cases first with
  | error e => cases h
  | ok c => exact ⟨c, rfl, h⟩

/-- Each item of a batch that was built has a request of its own, in order. -/
theorem buildRequests_getElem? {items : List α} {requests : List β} (index : Nat)
    (h : buildRequests build uuids index items = .ok requests) :
    requests.length = items.length ∧ ∀ i item, items[i]? = some item →
      ∃ request, requests[i]? = some request ∧ build (uuids (index + i)) item = .ok request := by
  induction items generalizing index requests with
  | nil =>
    cases h
    exact ⟨rfl, nofun⟩
  | cons item rest ih =>
    unfold buildRequests at h
    obtain ⟨request, hrequest, h⟩ := bind_ok h
    obtain ⟨requests', hrest, heq⟩ := bind_ok h
    cases heq
    obtain ⟨hlen, heach⟩ := ih (index + 1) hrest
    refine ⟨by rw [List.length_cons, List.length_cons, hlen], ?_⟩
    intro i item' hi
    cases i with
    | zero =>
      cases hi
      exact ⟨request, rfl, hrequest⟩
    | succ i =>
      obtain ⟨request', hr, hb⟩ := heach i item' hi
      exact ⟨request', hr, by rw [← hb]; congr 2; omega⟩

/-- A batch can be built if every item can. -/
theorem buildRequests_ok {items : List α} (uuids : Nat → String) (index : Nat)
    (h : ∀ item ∈ items, ∀ uuid, ∃ request, build uuid item = .ok request) :
    ∃ requests, buildRequests build uuids index items = .ok requests := by
  induction items generalizing index with
  | nil => exact ⟨[], rfl⟩
  | cons item rest ih =>
    obtain ⟨request, hrequest⟩ := h item (List.mem_cons_self ..) (uuids index)
    obtain ⟨requests, hrequests⟩ := ih (index + 1) fun item' hitem' => h item' (List.mem_cons_of_mem _ hitem')
    refine ⟨request :: requests, ?_⟩
    unfold buildRequests
    rw [hrequest]
    show (buildRequests build uuids (index + 1) rest >>= fun requests => pure (request :: requests)) = _
    rw [hrequests]
    rfl

/-- A batch with an item that cannot be built cannot be built. -/
theorem buildRequests_error {items : List α} (uuids : Nat → String) (index : Nat)
    (h : ∃ item ∈ items, ∀ uuid, ∃ e, build uuid item = .error e) :
    ∃ e, buildRequests build uuids index items = .error e := by
  induction items generalizing index with
  | nil =>
    obtain ⟨item, hitem, _⟩ := h
    cases hitem
  | cons item rest ih =>
    unfold buildRequests
    cases hrequest : build (uuids index) item with
    | error e => exact ⟨e, rfl⟩
    | ok request =>
      obtain ⟨bad, hbad, herror⟩ := h
      rcases List.mem_cons.1 hbad with rfl | hbad
      · obtain ⟨e, he⟩ := herror (uuids index)
        rw [hrequest] at he
        cases he
      · obtain ⟨e, he⟩ := ih (index + 1) ⟨bad, hbad, herror⟩
        refine ⟨e, ?_⟩
        show (buildRequests build uuids (index + 1) rest >>= fun requests => pure (request :: requests)) = _
        rw [he]
        rfl

/-- What holds of the request of each item holds of every request. -/
theorem buildRequests_forall {P : β → Prop} {items : List α} {requests : List β} (index : Nat)
    (h : ∀ item ∈ items, ∀ uuid request, build uuid item = .ok request → P request)
    (hrequests : buildRequests build uuids index items = .ok requests) : ∀ request ∈ requests, P request := by
  induction items generalizing index requests with
  | nil =>
    cases hrequests
    nofun
  | cons item rest ih =>
    unfold buildRequests at hrequests
    obtain ⟨request, hrequest, hrequests⟩ := bind_ok hrequests
    obtain ⟨requests', hrest, heq⟩ := bind_ok hrequests
    cases heq
    intro r hr
    rcases List.mem_cons.1 hr with rfl | hr
    · exact h item (List.mem_cons_self ..) _ r hrequest
    · exact ih (index + 1) (fun item' hitem' => h item' (List.mem_cons_of_mem _ hitem')) hrest r hr

/-- What is read off each item is read off its request. -/
theorem buildRequests_map {γ : Type} {f : β → γ} {g : α → γ} {items : List α} {requests : List β} (index : Nat)
    (h : ∀ item ∈ items, ∀ uuid request, build uuid item = .ok request → f request = g item)
    (hrequests : buildRequests build uuids index items = .ok requests) : requests.map f = items.map g := by
  induction items generalizing index requests with
  | nil =>
    cases hrequests
    rfl
  | cons item rest ih =>
    unfold buildRequests at hrequests
    obtain ⟨request, hrequest, hrequests⟩ := bind_ok hrequests
    obtain ⟨requests', hrest, heq⟩ := bind_ok hrequests
    cases heq
    rw [List.map_cons, List.map_cons, h item (List.mem_cons_self ..) _ request hrequest,
      ih (index + 1) (fun item' hitem' => h item' (List.mem_cons_of_mem _ hitem')) hrest]

/-- A batch that makes no use of the UUIDs drawn is built the same on others. -/
theorem buildRequests_congr {items : List α} (index : Nat) (uuids' : Nat → String)
    (h : ∀ item ∈ items, ∀ uuid uuid', build uuid item = build uuid' item) :
    buildRequests build uuids index items = buildRequests build uuids' index items := by
  induction items generalizing index with
  | nil => rfl
  | cons item rest ih =>
    rw [buildRequests, buildRequests, h item (List.mem_cons_self ..) (uuids index) (uuids' index),
      ih (index + 1) fun item' hitem' => h item' (List.mem_cons_of_mem _ hitem')]

end BatchAux

end RociaSdk
