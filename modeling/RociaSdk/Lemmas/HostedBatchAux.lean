import RociaSdk.HostedBatch
import RociaSdk.Lemmas.BatchAux
import RociaSdk.Lemmas.StoreAux

/-!
# What lands of a batch

The server applies each item of a batch once that has a marker of its own (`appliesOnce`), so that what `Resumption` says of batches
holds of those of the client (`resumed`).
-/

namespace RociaSdk

namespace Server

open Dispatching BatchAux StoreAux

namespace HostedBatchAux

variable {ι α : Type} [DecidableEq ι] {s : State} {token : List Event → Option String} {operation : String} {call : ι → WriteCall}
  {item? : WriteCall → Option ι} {requests : List ι} {events : List Event} {r : ι}

/-! ## One call of a batch -/

/-- An answer is `Ok` for the client if it is for the server. -/
theorem statusContext_ok_iff {β : Type} {answer : Except Status β} {value : β} :
    statusContext operation answer = .ok value ↔ answer = .ok value := by
  cases answer <;> simp [statusContext]

theorem landed_call (s : State) (events : List Event) (authorization : Option String) (write : WriteCall) :
    s.landed (events ++ [.call authorization write]) =
      s.landed events ++ ((Event.call authorization write).lands (s.run events)).toList := by
  rw [landed_append]
  simp [State.landed]

/-- A call that is acknowledged lands, unless it is a replay. -/
theorem lands_of_ok {authorization : Option String} {write : WriteCall} (h : (write.handle authorization s).1 = .ok ()) :
    (Event.call authorization write).lands s = if s.absorbsReplay write.marker then none else some write := by
  simp [Event.lands, h]

theorem lands_of_error {authorization : Option String} {write : WriteCall} {e : Status}
    (h : (write.handle authorization s).1 = .error e) : (Event.call authorization write).lands s = none := by
  simp [Event.lands, h]

/-- Only a call lands, and only as itself. -/
theorem call_of_lands {event : Event} {write : WriteCall} (h : event.lands s = some write) :
    ∃ authorization, event = .call authorization write := by
  cases event with
  | call authorization write' =>
    refine ⟨authorization, ?_⟩
    cases hanswer : (write'.handle authorization s).1 with
    | error e =>
      rw [lands_of_error hanswer] at h
      cases h
    | ok u =>
      rw [lands_of_ok hanswer] at h
      split at h
      · cases h
      · rw [Option.some.inj h]
  | _ => cases h

/-- A marker is known once a call with it has landed, or if it was applied before. -/
theorem absorbs_iff (s : State) (events : List Event) (marker : RequestMarker) :
    (s.run events).absorbsReplay (some marker) = true ↔
      marker ∈ s.appliedRequests ∨ ∃ write ∈ s.landed events, write.marker = some marker := by
  rw [← mem_marks_run]
  simp [State.absorbsReplay]

/-! ## The calls of a batch -/

/-- How the items of a batch are calls that can be told apart by their markers, none of which was applied before. -/
structure Marking (s : State) (call : ι → WriteCall) (item? : WriteCall → Option ι) (requests : List ι) : Prop where
  item_iff : ∀ write r, item? write = some r ↔ write = call r
  marked : ∀ r ∈ requests, ((call r).marker).isSome = true
  distinct : ∀ r ∈ requests, ∀ r' ∈ requests, (call r).marker = (call r').marker → r = r'
  fresh : ∀ r ∈ requests, ∀ marker ∈ (call r).marker, marker ∉ s.appliedRequests

/-- What has landed under a marker of the batch is its item. -/
def OwnMarkers (s : State) (call : ι → WriteCall) (requests : List ι) (events : List Event) : Prop :=
  ∀ write ∈ s.landed events, ∀ r ∈ requests, write.marker = (call r).marker → write = call r

theorem Marking.mem_landedItems (h : Marking s call item? requests) :
    r ∈ landedItems item? requests s events ↔ call r ∈ s.landed events ∧ r ∈ requests := by
  simp only [landedItems, List.mem_filter, List.mem_filterMap, h.item_iff, exists_eq_right, decide_eq_true_eq]

/-- What has landed of a batch after one more event. -/
theorem landedItems_append (item? : WriteCall → Option ι) (requests : List ι) (s : State) (events : List Event) (event : Event) :
    landedItems item? requests s (events ++ [event]) =
      landedItems item? requests s events ++
        ((event.lands (s.run events)).toList.filterMap item?).filter fun r => r ∈ requests := by
  simp [landedItems, landed_append, State.landed, List.filterMap_append, List.filter_append]

omit [DecidableEq ι] in
/-- An item that is handled when its marker is known has landed. -/
theorem Marking.landed_of_absorbs (h : Marking s call item? requests) (hown : OwnMarkers s call requests events) (hr : r ∈ requests)
    (habsorbs : (s.run events).absorbsReplay (call r).marker = true) : call r ∈ s.landed events := by
  obtain ⟨marker, hmarker⟩ := Option.isSome_iff_exists.1 (h.marked r hr)
  rw [hmarker, absorbs_iff] at habsorbs
  rcases habsorbs with happlied | ⟨write, hwrite, hsame⟩
  · exact absurd happlied (h.fresh r hr marker hmarker)
  · have heq := hown write hwrite r hr (hsame.trans hmarker.symm)
    rwa [heq] at hwrite

omit [DecidableEq ι] in
/-- An item that has landed has its marker known. -/
theorem Marking.absorbs_of_landed (h : Marking s call item? requests) (hr : r ∈ requests) (hlanded : call r ∈ s.landed events) :
    (s.run events).absorbsReplay (call r).marker = true := by
  obtain ⟨marker, hmarker⟩ := Option.isSome_iff_exists.1 (h.marked r hr)
  rw [hmarker, absorbs_iff]
  exact .inr ⟨call r, hlanded, hmarker⟩

/-- The server applies each item once. -/
theorem appliesOnce (h : Marking s call item? requests) (token : List Event → Option String) (operation : String) :
    Resumption.AppliesOnce (batchService s token operation call) happens
      (fun event => ∀ authorization write, event = .call authorization write → ∀ r ∈ requests, write.marker ≠ (call r).marker)
      (fun r => r ∈ requests) (OwnMarkers s call requests) (landedItems item? requests s) where
  accepts events r hown hr hok := by
    have hanswer := statusContext_ok_iff.1 hok
    have hitem : item? (call r) = some r := (h.item_iff _ _).2 rfl
    simp only [batchService, landedItems_append, lands_of_ok hanswer, h.mem_landedItems]
    cases habsorbs : (s.run events).absorbsReplay (call r).marker with
    | true => exact .inl ⟨⟨h.landed_of_absorbs hown hr habsorbs, hr⟩, by simp⟩
    | false =>
      refine .inr ⟨fun hmem => ?_, by simp [hitem, hr]⟩
      rw [h.absorbs_of_landed hr hmem.1] at habsorbs
      cases habsorbs
  refuses events r e _ _ herror := by
    have hanswer : ∃ e, ((call r).handle (token events) (s.run events)).1 = .error e := by
      cases hanswer : ((call r).handle (token events) (s.run events)).1 with
      | error e => exact ⟨e, rfl⟩
      | ok u =>
        simp only [batchService, hanswer, statusContext] at herror
        cases herror
    obtain ⟨e, hanswer⟩ := hanswer
    simp [batchService, landedItems_append, lands_of_error hanswer]
  others events event _ hallowed := by
    simp only [happens, landedItems_append]
    cases hlands : event.lands (s.run events) with
    | none => simp
    | some write =>
      obtain ⟨authorization, heq⟩ := call_of_lands hlands
      cases hitem : item? write with
      | none => simp [hitem]
      | some r =>
        have hnot : r ∉ requests := fun hmem =>
          hallowed authorization write heq r hmem (congrArg WriteCall.marker ((h.item_iff _ _).1 hitem))
        simp [hitem, hnot]
  valid_handle events r hown hr := by
    intro write hwrite r' hr' hmarker
    simp only [batchService, landed_call, List.mem_append, Option.mem_toList] at hwrite
    rcases hwrite with hold | hnew
    · exact hown write hold r' hr' hmarker
    · obtain ⟨_, heq⟩ := call_of_lands hnew
      cases heq
      rw [h.distinct r hr r' hr' hmarker]
  valid_other events event hown hallowed := by
    intro write hwrite r hr hmarker
    simp only [happens, landed_append, State.landed, List.append_nil, List.mem_append, Option.mem_toList] at hwrite
    rcases hwrite with hold | hnew
    · exact hown write hold r hr hmarker
    · obtain ⟨authorization, heq⟩ := call_of_lands hnew
      exact absurd hmarker (hallowed authorization write heq r hr)

/-! ## Runs of a batch -/

variable {items : List α} {marker : α → Option RequestMarker} {keyOf : ι → String}
  {x : Exchange String ι RociaDbError (List Event)}

omit [DecidableEq ι] in
/-- The requests of items that can be told apart by their markers. -/
theorem marking_of_markable (hitem : ∀ write r, item? write = some r ↔ write = call r)
    (hmarks : requests.map (fun r => (call r).marker) = items.map marker) (h : Markable s marker items) :
    Marking s call item? requests where
  item_iff := hitem
  marked r hr := by
    have hmem : (call r).marker ∈ items.map marker := hmarks ▸ List.mem_map_of_mem hr
    obtain ⟨item, hmem, heq⟩ := List.mem_map.1 hmem
    rw [← heq]
    exact h.marked item hmem
  distinct r hr r' hr' hmarker := by
    have hdistinct : (requests.map fun r => (call r).marker).Nodup := hmarks ▸ h.distinct
    exact List.inj_on_of_nodup_map hdistinct hr hr' hmarker
  fresh r hr m hm := by
    have hmem : (call r).marker ∈ items.map marker := hmarks ▸ List.mem_map_of_mem hr
    obtain ⟨item, hmem, heq⟩ := List.mem_map.1 hmem
    exact h.fresh item hmem m (heq ▸ hm)

/-- What a batch comes to that is run again, each time with its groups in some order. -/
theorem resumed (hitem : ∀ write r, item? write = some r ↔ write = call r)
    (hmarks : requests.map (fun r => (call r).marker) = items.map marker) (h : Markable s marker items) {order : List String}
    (horder : (groupPreservingOrder requests keyOf).IsOrder order) {again : Dispatch String ι RociaDbError → Prop}
    (hagain : ∀ client, again client → ∃ order, (groupPreservingOrder requests keyOf).IsOrder order ∧
      client = dispatchBatch keyOf order (.ok requests))
    (hrun : Transition.Run (Resumption.step concurrentRequests (batchService s token operation call) happens)
      (MayHappen marker items again) (.new (dispatchBatch keyOf order (.ok requests)) []) x) :
    LandsInOrder keyOf requests (landedItems item? requests s x.server) x.client.status := by
  have hmarking := marking_of_markable hitem hmarks h
  have hnodup : requests.Nodup := by
    have hdistinct : (requests.map fun r => (call r).marker).Nodup := hmarks ▸ h.distinct
    exact hdistinct.of_map _
  have hgroups : ∀ k, (requests.filter fun r => keyOf r = k).Nodup := fun k => hnodup.filter _
  have honce : Resumption.AppliesOnce (batchService s token operation call) happens
      (fun event => ∀ authorization write, event = .call authorization write → ∀ r ∈ requests, write.marker ≠ (call r).marker)
      (fun r => ∃ k, r ∈ requests.filter fun r => keyOf r = k) (OwnMarkers s call requests) (landedItems item? requests s) := by
    have hsame : (fun r => ∃ k, r ∈ requests.filter fun r => keyOf r = k) = fun r => r ∈ requests := by
      funext r
      simp
    rw [hsame]
    exact appliesOnce hmarking token operation
  have hstart : ∀ order, (groupPreservingOrder requests keyOf).IsOrder order →
      (dispatchBatch keyOf order (.ok requests) : Dispatch String ι RociaDbError).Inv concurrentRequests
          (fun k => requests.filter fun r => keyOf r = k) ∧
        ∀ k, (dispatchBatch keyOf order (.ok requests) : Dispatch String ι RociaDbError).acked k = [] :=
    fun order horder => ⟨inv_batch _ horder, fun _ => rfl⟩
  have hinv : Resumption.Inv concurrentRequests (fun k => requests.filter fun r => keyOf r = k) keyOf (OwnMarkers s call requests)
      (landedItems item? requests s) x := by
    refine (Resumption.inv_new (hstart order horder).1 (hstart order horder).2 nofun rfl).run (key_of_mem requests) honce hgroups
      hrun ?_ ?_
    · intro _ event hspares authorization write heq r hr
      have hmem : (call r).marker ∈ items.map marker := hmarks ▸ List.mem_map_of_mem hr
      obtain ⟨item, hmem, heq'⟩ := List.mem_map.1 hmem
      rw [← heq']
      exact hspares authorization write heq item hmem
    · intro _ client hclient
      obtain ⟨order, horder, rfl⟩ := hagain client hclient
      exact hstart order horder
  exact ⟨hinv.nodup hgroups, hinv.isPrefix, hinv.all_applied⟩

omit [DecidableEq ι] in
/-- A batch that cannot be built is refused each time and sends nothing. -/
theorem refused {e : RociaDbError} {again : Dispatch String ι RociaDbError → Prop} (hagain : ∀ client, again client → client = .refused e)
    (hrun : Transition.Run (Resumption.step concurrentRequests (batchService s token operation call) happens)
      (MayHappen marker items again) (.new (.refused e) []) x) :
    x.client = .refused e ∧ x.stale = [] := by
  refine hrun.invariant (fun x => x.client = .refused e ∧ x.stale = []) ⟨rfl, rfl⟩ ?_
  rintro t event u ⟨hclient, hstale⟩ hguard hs
  cases event with
  | exchange event =>
    refine ((Exchange.step_cases hs).of_quiet ?_ ?_ hstale).elim
    · rw [hclient]
      exact nofun
    · intro k
      rw [hclient]
      rfl
  | resend key => simp [Resumption.step, hclient, Dispatch.refused] at hs
  | other event =>
    cases hs
    exact ⟨hclient, hstale⟩
  | again client =>
    cases hagain client hguard
    simp only [Resumption.step, hclient, Dispatch.refused, Option.some.injEq] at hs
    subst hs
    exact ⟨rfl, hstale⟩

/-- What a batch comes to whose requests are the same whenever they are built. -/
theorem resumed_build (keyOf : ι → String) {build : (Nat → String) → Result (List ι)} (hcongr : ∀ uuids, build uuids = build fun _ => "")
    (hitem : ∀ write r, item? write = some r ↔ write = call r)
    (hmarks : ∀ requests, build (fun _ => "") = .ok requests → requests.map (fun r => (call r).marker) = items.map marker)
    (h : Markable s marker items) {again : Dispatch String ι RociaDbError → Prop}
    (hagain : ∀ client, again client → ∃ uuids order, client = dispatchBatch keyOf order (build uuids) ∧
      ∀ requests, build uuids = .ok requests → (groupPreservingOrder requests keyOf).IsOrder order)
    {client : Dispatch String ι RociaDbError} (hclient : again client)
    (hrun : Transition.Run (Resumption.step concurrentRequests (batchService s token operation call) happens)
      (MayHappen marker items again) (.new client []) x) :
    match build fun _ => "" with
    | .error e => x.client = .refused e ∧ x.stale = []
    | .ok requests => LandsInOrder keyOf requests (landedItems item? requests s x.server) x.client.status := by
  cases hbuild : build fun _ => "" with
  | error e =>
    have hrefused : ∀ client, again client → client = .refused e := by
      intro client hclient
      obtain ⟨uuids, order, rfl, -⟩ := hagain client hclient
      rw [hcongr uuids, hbuild]
      rfl
    cases hrefused client hclient
    exact refused hrefused hrun
  | ok requests =>
    have hdispatched : ∀ client, again client → ∃ order, (groupPreservingOrder requests keyOf).IsOrder order ∧
        client = dispatchBatch keyOf order (.ok requests) := by
      intro client hclient
      obtain ⟨uuids, order, rfl, horder⟩ := hagain client hclient
      have hsame : build uuids = .ok requests := (hcongr uuids).trans hbuild
      exact ⟨order, horder requests hsame, by rw [hsame]⟩
    obtain ⟨order, horder, rfl⟩ := hdispatched client hclient
    exact resumed hitem (hmarks requests hbuild) h horder hdispatched hrun

end HostedBatchAux

end Server

end RociaSdk
