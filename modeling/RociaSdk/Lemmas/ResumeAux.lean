import Mathlib.Data.List.Pairwise
import RociaSdk.Lemmas.BatchAux

/-!
# A store that is sent a batch again

What a store that deduplicates makes of the writes of a batch, when each is sent to it only after those before it on its node,
and when any of them may be sent to it again.
-/

namespace RociaSdk

open Dispatching BatchAux

/-- What a store has applied to a node. -/
def NodeStore.appliedTo (store : NodeStore) (nodeId : String) : List PutNodeRequest :=
  store.applied.filter fun r => r.nodeId = nodeId

/-- The writes of a batch to a node. -/
def writesTo (requests : List PutNodeRequest) (nodeId : String) : List PutNodeRequest :=
  requests.filter fun r => r.nodeId = nodeId

/-- No two of these writes go to one node under one request id. -/
def DistinctIds (requests : List PutNodeRequest) : Prop :=
  requests.Pairwise fun a b => a.nodeId = b.nodeId → a.requestId ≠ b.requestId

/-- What a node holds after these writes to it, and what it held before them. -/
def lastJson (writes : List PutNodeRequest) (before : Option (List UInt8)) : Option (List UInt8) :=
  match writes.getLast? with
  | some r => some r.json
  | none => before

variable {requests : List PutNodeRequest} {store : NodeStore} {r : PutNodeRequest}

/-! ## The writes of a batch -/

/-- The writes of a batch with distinct ids are distinct. -/
theorem DistinctIds.nodup (h : DistinctIds requests) : requests.Nodup :=
  List.Pairwise.imp (fun hab heq => hab (by rw [heq]) (by rw [heq])) h

/-- A node and a request id determine a write of such a batch. -/
theorem DistinctIds.eq_of (h : DistinctIds requests) {a : PutNodeRequest} (ha : a ∈ requests) (hr : r ∈ requests)
    (hnode : a.nodeId = r.nodeId) (hid : a.requestId = r.requestId) : a = r := by
  have : Std.Symm fun a b : PutNodeRequest => a.nodeId = b.nodeId → a.requestId ≠ b.requestId :=
    ⟨fun a b hab heq hid => hab heq.symm hid.symm⟩
  by_contra hne
  exact List.Pairwise.forall h ha hr hne hnode hid

namespace ResumeAux

/-- The writes to a node go there. -/
theorem mem_writesTo {k : String} : r ∈ writesTo requests k ↔ r ∈ requests ∧ r.nodeId = k := by
  unfold writesTo
  rw [List.mem_filter, decide_eq_true_iff]

/-- Two beginnings of a list of distinct writes, one of which ends in `r`: the other has `r`, or it has no more than the first
without `r`. -/
theorem prefix_cases {writes before applied : List PutNodeRequest} (hb : before ++ [r] <+: writes) (ha : applied <+: writes) :
    before ++ [r] <+: applied ∨ applied <+: before := by
  rcases List.prefix_or_prefix_of_prefix hb ha with h | h
  · exact Or.inl h
  · rcases List.prefix_concat_iff.1 h with rfl | h
    · exact Or.inl (List.prefix_refl _)
    · exact Or.inr h

/-! ## The store -/

/-- A write whose predecessors the store has applied. -/
def Ready (requests : List PutNodeRequest) (store : NodeStore) (r : PutNodeRequest) : Prop :=
  ∃ before, before ++ [r] <+: writesTo requests r.nodeId ∧ before <+: store.appliedTo r.nodeId

/-- What holds of a store that is sent the writes of a batch: it has applied the first writes of each node, knows their keys and
no others of the batch, and each node holds the last of them. -/
structure StoreInv (initial : NodeStore) (tenantId graph : String) (requests : List PutNodeRequest) (store : NodeStore) :
    Prop where
  applied : ∀ k, store.appliedTo k <+: writesTo requests k
  seen : ∀ r ∈ requests, r.dedupKey ∈ store.seen → r ∈ store.applied
  applied_seen : ∀ r ∈ store.applied, r.dedupKey ∈ store.seen
  nodes : ∀ k, store.nodes (tenantId, graph, k) = lastJson (store.appliedTo k) (initial.nodes (tenantId, graph, k))

/-- A store that has applied nothing and knows no key of the batch. -/
theorem StoreInv.initial (store : NodeStore) (tenantId graph : String) (happlied : store.applied = [])
    (hfresh : ∀ r ∈ requests, r.dedupKey ∉ store.seen) : StoreInv store tenantId graph requests store where
  applied k := by
    unfold NodeStore.appliedTo
    rw [happlied]
    exact List.nil_prefix
  seen r hr hseen := absurd hseen (hfresh r hr)
  applied_seen r hr := by
    rw [happlied] at hr
    cases hr
  nodes k := by rw [NodeStore.appliedTo, happlied]; rfl

/-- A ready write is one of the batch. -/
theorem Ready.mem (h : Ready requests store r) : r ∈ requests := by
  obtain ⟨before, hpre, _⟩ := h
  exact (mem_writesTo.1 (hpre.subset (by simp))).1

/-- A write stays ready while the store applies more. -/
theorem Ready.mono {store' : NodeStore} (h : Ready requests store r) (hmono : ∀ k, store.appliedTo k <+: store'.appliedTo k) :
    Ready requests store' r := by
  obtain ⟨before, hpre, hbefore⟩ := h
  exact ⟨before, hpre, hbefore.trans (hmono _)⟩

/-- A write whose key the store knows has been applied after those before it. -/
theorem StoreInv.known {initial : NodeStore} {tenantId graph : String} (h : StoreInv initial tenantId graph requests store)
    (hdistinct : DistinctIds requests) (hseen : r.dedupKey ∈ store.seen) {before : List PutNodeRequest}
    (hpre : before ++ [r] <+: writesTo requests r.nodeId) : before ++ [r] <+: store.appliedTo r.nodeId := by
  have hr : r ∈ requests := (mem_writesTo.1 (hpre.subset (by simp))).1
  rcases prefix_cases hpre (h.applied r.nodeId) with hdone | hshort
  · exact hdone
  · -- The store would have applied `r` among the writes before it, where it cannot be a second time.
    have hbefore : r ∈ before := hshort.subset (List.mem_filter.2 ⟨h.seen r hr hseen, by simp⟩)
    have hnodup : (before ++ [r]).Nodup := hpre.sublist.nodup (hdistinct.nodup.filter _)
    exact absurd rfl ((List.nodup_append.1 hnodup).2.2 r hbefore r (List.mem_singleton_self r))

/-- A write whose key the store does not know is the next of its node, if those before it have been applied. -/
theorem StoreInv.unknown {initial : NodeStore} {tenantId graph : String} (h : StoreInv initial tenantId graph requests store)
    (hseen : r.dedupKey ∉ store.seen) {before : List PutNodeRequest} (hpre : before ++ [r] <+: writesTo requests r.nodeId)
    (hbefore : before <+: store.appliedTo r.nodeId) : store.appliedTo r.nodeId = before := by
  rcases prefix_cases hpre (h.applied r.nodeId) with hdone | hshort
  · have hr : r ∈ store.appliedTo r.nodeId := hdone.subset (by simp)
    exact absurd (h.applied_seen r (List.mem_filter.1 hr).1) hseen
  · exact hshort.eq_of_length_le hbefore.length_le

/-- What serving a write that is ready makes of the store: nothing is applied out of order. -/
theorem StoreInv.serve {initial : NodeStore} {tenantId graph : String} (h : StoreInv initial tenantId graph requests store)
    (hdistinct : DistinctIds requests) (htarget : ∀ r ∈ requests, r.tenantId = tenantId ∧ r.graph = graph)
    (hready : Ready requests store r) : StoreInv initial tenantId graph requests (dedup.handle store r).1 := by
  by_cases hseen : r.dedupKey ∈ store.seen
  · simpa [dedup, hseen] using h
  obtain ⟨before, hpre, hbefore⟩ := hready
  have hr : r ∈ requests := Ready.mem ⟨before, hpre, hbefore⟩
  have hnext := h.unknown hseen hpre hbefore
  have hkey : (store.applied ++ [r]).filter (fun a => a.nodeId = r.nodeId) = before ++ [r] := by
    rw [List.filter_append]
    exact congrArg₂ _ hnext (by simp)
  have hother : ∀ k, k ≠ r.nodeId → (store.applied ++ [r]).filter (fun a => a.nodeId = k) = store.appliedTo k := by
    intro k hk
    rw [List.filter_append, NodeStore.appliedTo]
    simp [Ne.symm hk]
  unfold dedup
  dsimp only
  rw [if_neg hseen]
  refine ⟨?_, ?_, ?_, ?_⟩
  · intro k
    unfold NodeStore.appliedTo
    by_cases hk : k = r.nodeId
    · rw [hk, hkey]
      exact hpre
    · rw [hother k hk]
      exact h.applied k
  · intro a ha hmem
    rcases List.mem_cons.1 hmem with heq | hmem
    · simp only [PutNodeRequest.dedupKey, Prod.mk.injEq] at heq
      rw [hdistinct.eq_of ha hr heq.2.2.1 heq.2.2.2]
      exact List.mem_append_right _ (List.mem_singleton_self r)
    · exact List.mem_append_left _ (h.seen a ha hmem)
  · intro a ha
    rcases List.mem_append.1 ha with ha | ha
    · exact List.mem_cons_of_mem _ (h.applied_seen a ha)
    · rw [List.mem_singleton.1 ha]
      exact List.mem_cons_self ..
  · intro k
    obtain ⟨htenant, hgraph⟩ := htarget r hr
    simp only [NodeStore.appliedTo, htenant, hgraph]
    by_cases hk : k = r.nodeId
    · rw [hk, hkey, Function.update_self, lastJson, List.getLast?_concat]
    · rw [hother k hk, Function.update_of_ne (by simp [hk])]
      exact h.nodes k

/-- Serving a write takes nothing back. -/
theorem serve_mono (store : NodeStore) (r : PutNodeRequest) (k : String) :
    store.appliedTo k <+: (dedup.handle store r).1.appliedTo k := by
  unfold dedup
  dsimp only
  split
  · exact List.prefix_refl _
  · rw [NodeStore.appliedTo, NodeStore.appliedTo, List.filter_append]
    exact List.prefix_append _ _

/-- Once it has been served, a ready write is applied, after those before it. -/
theorem StoreInv.served {initial : NodeStore} {tenantId graph : String} (h : StoreInv initial tenantId graph requests store)
    (hdistinct : DistinctIds requests) {before : List PutNodeRequest} (hpre : before ++ [r] <+: writesTo requests r.nodeId)
    (hbefore : before <+: store.appliedTo r.nodeId) : before ++ [r] <+: (dedup.handle store r).1.appliedTo r.nodeId := by
  by_cases hseen : r.dedupKey ∈ store.seen
  · exact (h.known hdistinct hseen hpre).trans (serve_mono store r _)
  · have hnext := h.unknown hseen hpre hbefore
    simp only [dedup, if_neg hseen, NodeStore.appliedTo, List.filter_append] at hnext ⊢
    simp [hnext]

end ResumeAux

end RociaSdk
