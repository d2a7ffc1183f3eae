import RociaSdk.Lemmas.StoreAux

/-!
# What every write keeps

`Store.Sound` says what holds of a store whatever is written to it, and `Sound.apply` that a write keeps it, from a lemma for each
kind of row that a write can change.
-/

namespace RociaSdk

namespace Server

/-- The timestamp of the write with a number. -/
def Store.stamp (store : Store) (number : Nat) : String :=
  if store.nonRfc3339Timestamps then formatLocalDateTime (timestampBaseUnixSeconds + number)
  else formatRfc3339 (timestampBaseUnixSeconds + number)

/-- What holds of a store whatever is written to it. -/
structure Store.Sound (store : Store) : Prop where
  /-- The endpoints of an edge are nodes of its graph. -/
  endpoints : ∀ graph edgeId edge, store.edges.find? graph edgeId = some edge →
    (store.nodes.find? graph edge.fromNode).isSome = true ∧ (store.nodes.find? graph edge.toNode).isSome = true
  /-- A triplet has at most one edge in a graph. -/
  unique : ∀ graph edgeId edgeId' edge edge', store.edges.find? graph edgeId = some edge →
    store.edges.find? graph edgeId' = some edge' → edge.triplet = edge'.triplet → edgeId = edgeId'
  /-- A file has the size and the length of checksum it was declared with. -/
  sizes : ∀ bucket fileId file, store.files.find? bucket fileId = some file →
    file.sizeBytes = UInt64.ofNat file.bytes.length ∧ file.checksum.length = checksumLen
  /-- A file was created by a write that was stamped, and last written by the same or a later one. -/
  stamps : ∀ bucket fileId file, store.files.find? bucket fileId = some file →
    ∃ created updated, 1 ≤ created ∧ created ≤ updated ∧ updated ≤ store.writes ∧ file.createdAt = store.stamp created ∧
      file.updatedAt = store.stamp updated
  /-- A tenant with data is registered. -/
  registered : ∀ scope id, (store.documents.find? scope id).isSome = true ∨ (store.nodes.find? scope id).isSome = true ∨
    (store.edges.find? scope id).isSome = true ∨ (store.files.find? scope id).isSome = true → scope.1 ∈ store.tenants

namespace SoundAux

variable {store : Store}

/-! ## Edges -/

/-- Another edge of the graph has the triplet. -/
theorem taken_iff (store : Store) (r : AddEdgeRequest) :
    store.taken r = true ↔ ∃ edgeId edge, edgeId ≠ r.edgeId ∧ store.edges.find? (r.tenantId, r.graph) edgeId = some edge ∧
      edge.triplet = r.edge.triplet := by
  unfold Store.taken
  rw [List.any_eq_true]
  constructor
  · rintro ⟨⟨edgeId, edge⟩, hmem, h⟩
    simp only [ne_eq, decide_not, Bool.and_eq_true, Bool.not_eq_eq_eq_not, Bool.not_true, decide_eq_false_iff_not,
      decide_eq_true_eq] at h
    obtain ⟨⟨⟨hne, hfrom⟩, hto⟩, hlabel⟩ := h
    exact ⟨edgeId, edge, hne, Table.mem_rows_iff.1 hmem, by simp [StoredEdge.triplet, AddEdgeRequest.edge, hfrom, hto, hlabel]⟩
  · rintro ⟨edgeId, edge, hne, hfind, htriplet⟩
    simp only [StoredEdge.triplet, AddEdgeRequest.edge, Prod.mk.injEq] at htriplet
    exact ⟨(edgeId, edge), Table.mem_rows_iff.2 hfind, by simp [hne, htriplet]⟩

/-- An edge is let in if both endpoints are there and no other edge has its triplet. -/
theorem checkEdge_ok_iff (store : Store) (r : AddEdgeRequest) :
    Store.checkEdge r store = .ok () ↔ (store.nodes.find? (r.tenantId, r.graph) r.fromNode).isSome = true ∧
      (store.nodes.find? (r.tenantId, r.graph) r.toNode).isSome = true ∧ store.taken r = false := by
  unfold Store.checkEdge
  cases hfrom : store.nodes.find? (r.tenantId, r.graph) r.fromNode with
  | none => simp [hfrom]
  | some source =>
    cases hto : store.nodes.find? (r.tenantId, r.graph) r.toNode with
    | none => simp [hfrom, hto]
    | some target => cases store.taken r <;> simp [hfrom, hto]

/-! ## Each write -/

theorem Sound.register (h : store.Sound) (tenantId : String) : (store.register tenantId).Sound where
  endpoints := h.endpoints
  unique := h.unique
  sizes := h.sizes
  stamps := h.stamps
  registered scope row hsome := by
    have := h.registered scope row hsome
    simp [Store.register, Std.ExtTreeSet.mem_insert, this]

theorem mem_register (store : Store) (tenantId : String) : tenantId ∈ (store.register tenantId).tenants := by
  simp [Store.register]

/-- A row that is put is in a scope of a tenant that is registered. -/
theorem registered_put {α : Type} {rows : Rows α} {tenants : Std.ExtTreeSet String} {tenantId name : String} {id id' : String}
    {scope : String × String} {row : α} (hr : tenantId ∈ tenants)
    (h : ((rows.put (tenantId, name) id row).find? scope id').isSome = true) :
    scope.1 ∈ tenants ∨ (rows.find? scope id').isSome = true := by
  rcases Table.isSome_find?_put h with rfl | h
  · exact .inl hr
  · exact .inr h

theorem isSome_of_remove {α : Type} {rows : Rows α} {scope scope' : String × String} {id id' : String}
    (h : ((rows.remove scope id).find? scope' id').isSome = true) : (rows.find? scope' id').isSome = true := by
  obtain ⟨row, hrow⟩ := Option.isSome_iff_exists.1 h
  rw [Table.find?_of_remove hrow]
  rfl

theorem Sound.putDoc (h : store.Sound) (r : PutDocRequest) (hr : r.tenantId ∈ store.tenants) : (store.putDoc r).Sound where
  endpoints := h.endpoints
  unique := h.unique
  sizes := h.sizes
  stamps := h.stamps
  registered scope row hsome := by
    rcases hsome with hdoc | hrest
    · rcases registered_put hr hdoc with hmem | hdoc
      · exact hmem
      · exact h.registered scope row (.inl hdoc)
    · exact h.registered scope row (.inr hrest)

theorem Sound.deleteDoc (h : store.Sound) (r : DeleteDocRequest) : (store.deleteDoc r).Sound where
  endpoints := h.endpoints
  unique := h.unique
  sizes := h.sizes
  stamps := h.stamps
  registered scope row hsome := h.registered scope row (hsome.imp isSome_of_remove id)

theorem Sound.putNode (h : store.Sound) (r : PutNodeRequest) (hr : r.tenantId ∈ store.tenants) : (store.putNode r).Sound where
  endpoints graph edgeId edge hedge :=
    (h.endpoints graph edgeId edge hedge).imp Table.find?_put_isSome Table.find?_put_isSome
  unique := h.unique
  sizes := h.sizes
  stamps := h.stamps
  registered scope row hsome := by
    rcases hsome with hdoc | hnode | hrest
    · exact h.registered scope row (.inl hdoc)
    · rcases registered_put hr hnode with hmem | hnode
      · exact hmem
      · exact h.registered scope row (.inr (.inl hnode))
    · exact h.registered scope row (.inr (.inr hrest))

theorem Sound.addEdge (h : store.Sound) (r : AddEdgeRequest) (hr : r.tenantId ∈ store.tenants)
    (hcheck : Store.checkEdge r store = .ok ()) : (store.addEdge r).Sound where
  endpoints graph edgeId edge hedge := by
    obtain ⟨hfrom, hto, -⟩ := (checkEdge_ok_iff store r).1 hcheck
    simp only [Store.addEdge, Table.find?_put] at hedge ⊢
    split at hedge
    · rename_i hput
      cases hedge
      rw [← hput.1]
      exact ⟨hfrom, hto⟩
    · exact h.endpoints graph edgeId edge hedge
  unique graph edgeId edgeId' edge edge' hedge hedge' htriplet := by
    obtain ⟨-, -, htaken⟩ := (checkEdge_ok_iff store r).1 hcheck
    have hfree : ∀ id other, id ≠ r.edgeId → store.edges.find? (r.tenantId, r.graph) id = some other →
        other.triplet ≠ r.edge.triplet := fun id other hne hfind heq => by
      rw [(taken_iff store r).2 ⟨id, other, hne, hfind, heq⟩] at htaken
      cases htaken
    simp only [Store.addEdge, Table.find?_put] at hedge hedge'
    split at hedge
    · rename_i hput
      obtain ⟨rfl, rfl⟩ := hput
      cases hedge
      split at hedge'
      · rename_i hput'
        exact hput'.2
      · rename_i hput'
        exact absurd htriplet.symm (hfree edgeId' edge' (fun heq => hput' ⟨rfl, heq.symm⟩) hedge')
    · rename_i hput
      split at hedge'
      · rename_i hput'
        obtain ⟨rfl, rfl⟩ := hput'
        cases hedge'
        exact absurd htriplet (hfree edgeId edge (fun heq => hput ⟨rfl, heq.symm⟩) hedge)
      · exact h.unique graph edgeId edgeId' edge edge' hedge hedge' htriplet
  sizes := h.sizes
  stamps := h.stamps
  registered scope row hsome := by
    rcases hsome with hdoc | hnode | hedge | hfile
    · exact h.registered scope row (.inl hdoc)
    · exact h.registered scope row (.inr (.inl hnode))
    · rcases registered_put hr hedge with hmem | hedge
      · exact hmem
      · exact h.registered scope row (.inr (.inr (.inl hedge)))
    · exact h.registered scope row (.inr (.inr (.inr hfile)))

theorem Sound.deleteEdge (h : store.Sound) (r : DeleteEdgeRequest) : (store.deleteEdge r).Sound where
  endpoints graph edgeId edge hedge := h.endpoints graph edgeId edge (Table.find?_of_remove hedge)
  unique graph edgeId edgeId' edge edge' hedge hedge' :=
    h.unique graph edgeId edgeId' edge edge' (Table.find?_of_remove hedge) (Table.find?_of_remove hedge')
  sizes := h.sizes
  stamps := h.stamps
  registered scope row hsome := h.registered scope row (hsome.imp id (Or.imp id (Or.imp isSome_of_remove id)))

theorem Sound.upload (h : store.Sound) (head : UploadRequest) (bytes : List UInt8) (hr : head.tenantId ∈ store.tenants)
    (hcheck : head.checksum.length = checksumLen) : (store.upload head bytes).Sound where
  endpoints := h.endpoints
  unique := h.unique
  sizes bucket fileId file hfile := by
    simp only [Store.upload, Store.tick, Table.find?_put] at hfile
    split at hfile
    · cases hfile
      exact ⟨rfl, hcheck⟩
    · exact h.sizes bucket fileId file hfile
  stamps bucket fileId file hfile := by
    simp only [Store.upload, Store.tick, Table.find?_put] at hfile
    show ∃ created updated, 1 ≤ created ∧ created ≤ updated ∧ updated ≤ store.writes + 1 ∧ file.createdAt = store.stamp created ∧
      file.updatedAt = store.stamp updated
    split at hfile
    · cases hfile
      cases hold : store.files.find? (head.tenantId, head.bucket) head.fileId with
      | none => exact ⟨store.writes + 1, store.writes + 1, by omega, Nat.le_refl _, Nat.le_refl _, rfl, rfl⟩
      | some old =>
        obtain ⟨created, updated, hpos, hle, hwrites, hcreated, -⟩ := h.stamps _ _ old hold
        exact ⟨created, store.writes + 1, hpos, by omega, Nat.le_refl _, hcreated, rfl⟩
    · obtain ⟨created, updated, hpos, hle, hwrites, hcreated, hupdated⟩ := h.stamps bucket fileId file hfile
      exact ⟨created, updated, hpos, hle, by omega, hcreated, hupdated⟩
  registered scope row hsome := by
    rcases hsome with hdoc | hnode | hedge | hfile
    · exact h.registered scope row (.inl hdoc)
    · exact h.registered scope row (.inr (.inl hnode))
    · exact h.registered scope row (.inr (.inr (.inl hedge)))
    · rcases registered_put hr hfile with hmem | hfile
      · exact hmem
      · exact h.registered scope row (.inr (.inr (.inr hfile)))

theorem Sound.delete (h : store.Sound) (r : DeleteRequest) : (store.delete r).Sound where
  endpoints := h.endpoints
  unique := h.unique
  sizes bucket fileId file hfile := h.sizes bucket fileId file (Table.find?_of_remove hfile)
  stamps bucket fileId file hfile := h.stamps bucket fileId file (Table.find?_of_remove hfile)
  registered scope row hsome := h.registered scope row (hsome.imp id (Or.imp id (Or.imp id isSome_of_remove)))

/-! ## Any write -/

/-- A stream that is vetted declares a checksum of the length that is required. -/
theorem length_checksum_of_vet {stream : UploadStream} {head : UploadRequest} {bytes : List UInt8}
    (hvet : (WriteCall.upload stream).vet = .ok ()) (huploaded : WriteCall.uploaded stream = some (head, bytes)) :
    checkUpload head bytes = .ok () := by
  unfold WriteCall.vet at hvet
  unfold WriteCall.uploaded at huploaded
  split at huploaded
  · rename_i head' bytes' hdrain
    cases huploaded
    simpa [hdrain] using hvet
  · cases huploaded

/-- A write that is vetted and passes its check keeps what holds of a store. -/
theorem Sound.apply {call : WriteCall} {store' : Store} (h : store.Sound) (hvet : call.vet = .ok ())
    (happly : writes.apply call store = .ok store') : store'.Sound := by
  have hregister := Sound.register h call.tenantId
  have hmem := mem_register store call.tenantId
  cases call with
  | putDoc r =>
    cases happly
    exact Sound.putDoc hregister r hmem
  | deleteDoc r =>
    cases happly
    exact Sound.deleteDoc hregister r
  | putNode r =>
    cases happly
    exact Sound.putNode hregister r hmem
  | addEdge r =>
    cases hcheck : Store.checkEdge r store with
    | error e => simp [writes, WriteCall.check, hcheck, Except.map] at happly
    | ok u =>
      simp only [writes, WriteCall.check, hcheck, Except.map, Except.ok.injEq] at happly
      subst happly
      exact Sound.addEdge hregister r hmem hcheck
  | deleteEdge r =>
    cases happly
    exact Sound.deleteEdge hregister r
  | upload stream =>
    cases happly
    cases huploaded : WriteCall.uploaded stream with
    | none => simpa [WriteCall.put, huploaded] using hregister
    | some drained =>
      obtain ⟨head, bytes⟩ := drained
      have hcheck := length_checksum_of_vet hvet huploaded
      simp only [WriteCall.put, WriteCall.tenantId, huploaded, Option.map_some, Option.getD_some] at hregister hmem ⊢
      refine Sound.upload hregister head bytes hmem ?_
      unfold checkUpload at hcheck
      split at hcheck
      · cases hcheck
      · rename_i hlength
        exact not_not.1 hlength
  | delete r =>
    cases happly
    exact Sound.delete hregister r

/-- What holds of a store whatever is written to it is kept by a run. -/
theorem Sound.run {s : State} (events : List Event) (h : s.store.Sound) : (s.run events).store.Sound :=
  StoreAux.run_invariant Store.Sound (fun _ _ _ hvet hsound happly => Sound.apply hsound hvet happly) events h

theorem Sound.start (nonRfc3339Timestamps : Bool) : (State.start nonRfc3339Timestamps).store.Sound where
  endpoints := by simp [State.start, State.default, Store.empty]
  unique := by simp [State.start, State.default, Store.empty]
  sizes := by simp [State.start, State.default, Store.empty]
  stamps := by simp [State.start, State.default, Store.empty]
  registered := by simp [State.start, State.default, Store.empty]

end SoundAux

end Server

end RociaSdk
