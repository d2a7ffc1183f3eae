import RociaSdk.ServerRun

/-!
# What a write does to the server

`handle_cases` says of every write call that it is turned away before the store is looked at, or is handled as a service that absorbs
replays handles it; `run_marked` is what follows for a run.
-/

namespace RociaSdk

namespace Server

namespace StoreAux

variable {s : State} {authorization : Option String} {call : WriteCall}

/-! ## One call -/

/-- What a call passes first leaves the store and the markers alone. -/
theorem enter_marked (rpc : String) (authorization : Option String) (s : State) :
    (s.enter rpc authorization).2.marked = s.marked := by
  unfold State.enter
  split
  · rfl
  · split <;> rfl

/-- A write is absorbed, refused, or stored and marked. -/
theorem write_eq (marker : Option RequestMarker) (tenantId : String) (check : Store → Except Status Unit) (put : Store → Store)
    (s : State) :
    ((s.write marker tenantId check put).1, (s.write marker tenantId check put).2.marked) =
      if s.marked.knows marker then (.ok (), s.marked)
      else s.marked.settle marker ((check s.store).map fun _ => put (s.store.register tenantId)) := by
  unfold State.write
  have hknows : s.absorbsReplay marker = s.marked.knows marker := rfl
  rw [hknows]
  split
  · rfl
  · cases check s.store with
    | error e => rfl
    | ok u =>
      cases marker with
      | none => simp [State.markApplied, State.marked, Absorbing.Marked.settle, Absorbing.Marked.mark, Except.map]
      | some marker => simp [State.markApplied, State.marked, Absorbing.Marked.settle, Absorbing.Marked.mark, Except.map]

/-- A call that goes on after `enter` with a write is turned away there, or does what the write does. -/
theorem entering_cases (rpc : String) (authorization : Option String) (body : State → Except Status Unit × State) (s : State) :
    ((∃ e, (s.entering rpc authorization body).1 = .error e) ∧ (s.entering rpc authorization body).2.marked = s.marked) ∨
      ∃ t : State, t.marked = s.marked ∧ s.entering rpc authorization body = body t := by
  unfold State.entering
  have henter := enter_marked rpc authorization s
  rcases h : s.enter rpc authorization with ⟨answer, t⟩
  rw [h] at henter
  cases answer with
  | error e => exact .inl ⟨⟨e, rfl⟩, henter⟩
  | ok u => exact .inr ⟨t, henter, rfl⟩

/-- The case of an upload, which has its stream drained first. -/
theorem upload_cases (authorization : Option String) (stream : UploadStream) (s : State) :
    ((∃ e, (s.upload authorization stream).1 = .error e) ∧ (s.upload authorization stream).2.marked = s.marked) ∨
      ((s.upload authorization stream).1, (s.upload authorization stream).2.marked) =
        writes.handle s.marked (.upload stream) := by
  unfold State.upload
  cases s.uploadRejectBeforeReading with
  | some code => exact .inl ⟨⟨_, rfl⟩, rfl⟩
  | none =>
    rcases hdrain : drain stream.ending none [] stream.messages with e | ⟨head, bytes⟩
    · right
      simp [Absorbing.Service.handle, writes, WriteCall.vet, hdrain]
    · cases head with
      | none =>
        right
        simp [Absorbing.Service.handle, writes, WriteCall.vet, hdrain]
      | some head =>
        have huploaded : WriteCall.uploaded stream = some (head, bytes) := by simp [WriteCall.uploaded, hdrain]
        dsimp only
        rcases entering_cases "Upload" authorization _ s with h | ⟨t, ht, h⟩
        · exact .inl h
        · right
          rw [h, ← ht]
          simp only [Absorbing.Service.handle, writes, WriteCall.vet, hdrain, WriteCall.marker, huploaded, WriteCall.check,
            WriteCall.put, WriteCall.tenantId, Option.bind_some, Option.map_some, Option.getD_some]
          cases checkUpload head bytes with
          | error e => rfl
          | ok u => exact write_eq _ _ _ _ t

/-- A call is turned away, or handled as a service that absorbs replays handles it. -/
theorem handle_cases (authorization : Option String) (call : WriteCall) (s : State) :
    ((∃ e, (call.handle authorization s).1 = .error e) ∧ (call.handle authorization s).2.marked = s.marked) ∨
      ((call.handle authorization s).1, (call.handle authorization s).2.marked) = writes.handle s.marked call := by
  have hunary : ∀ rpc marker tenantId check put,
      call.handle authorization = State.entering rpc authorization (fun s => s.write marker tenantId check put) →
      (∀ m : Absorbing.Marked Store RequestMarker, writes.handle m call =
        if m.knows marker then (.ok (), m)
        else m.settle marker ((check m.contents).map fun _ => put (m.contents.register tenantId))) →
      ((∃ e, (call.handle authorization s).1 = .error e) ∧ (call.handle authorization s).2.marked = s.marked) ∨
        ((call.handle authorization s).1, (call.handle authorization s).2.marked) = writes.handle s.marked call := by
    intro rpc marker tenantId check put hhandle hwrites
    rw [hhandle, hwrites]
    rcases entering_cases rpc authorization (fun s => s.write marker tenantId check put) s with h | ⟨t, ht, h⟩
    · exact .inl h
    · rw [h, ← ht]
      exact .inr (write_eq marker tenantId check put t)
  cases call with
  | putDoc r => exact hunary _ _ _ _ _ rfl fun _ => rfl
  | deleteDoc r => exact hunary _ _ _ _ _ rfl fun _ => rfl
  | putNode r => exact hunary _ _ _ _ _ rfl fun _ => rfl
  | addEdge r => exact hunary _ _ _ _ _ rfl fun _ => rfl
  | deleteEdge r => exact hunary _ _ _ _ _ rfl fun _ => rfl
  | delete r => exact hunary _ _ _ _ _ rfl fun _ => rfl
  | upload stream => exact upload_cases authorization stream s

/-! ## Runs -/

/-- A download leaves the store and the markers alone. -/
theorem download_marked (authorization : Option String) (r : DownloadRequest) (s : State) :
    (s.download authorization r).2.marked = s.marked := by
  unfold State.download State.entering
  have henter := enter_marked "Download" authorization s
  rcases h : s.enter "Download" authorization with ⟨answer, t⟩
  rw [h] at henter
  cases answer with
  | error e => exact henter
  | ok u =>
    rw [← henter]
    dsimp only
    split
    · rfl
    · split <;> rfl

/-- An event changes nothing of the store and the markers, or it is a call that lands. -/
theorem step_cases (s : State) (event : Event) :
    (event.lands s = none ∧ (s.step event).marked = s.marked) ∨
      ∃ call store, event.lands s = some call ∧ writes.land s.marked call = some store ∧
        (s.step event).marked = s.marked.mark store call.marker := by
  cases event with
  | call authorization call =>
    simp only [Event.lands, State.step]
    rcases handle_cases authorization call s with ⟨⟨e, he⟩, hmarked⟩ | h
    · exact .inl ⟨by rw [he], hmarked⟩
    · obtain ⟨hanswer, hstate⟩ := Prod.ext_iff.1 h
      dsimp only at hanswer hstate
      rw [hanswer, hstate, Absorbing.Service.handle_state]
      cases hland : writes.land s.marked call with
      | some store =>
        obtain ⟨-, hknows, -⟩ := Absorbing.Service.land_eq_some_iff.1 hland
        have hok : (writes.handle s.marked call).1 = .ok () := Absorbing.Service.handle_ok_iff.2 (.inl (by simp [hland]))
        have habsorbs : s.absorbsReplay call.marker = false := hknows
        exact .inr ⟨call, store, by simp [hok, habsorbs], hland, rfl⟩
      | none =>
        left
        cases hok : (writes.handle s.marked call).1 with
        | error e => exact ⟨rfl, rfl⟩
        | ok u =>
          rcases Absorbing.Service.handle_ok_iff.1 hok with h | ⟨-, hknows⟩
          · simp [hland] at h
          · have habsorbs : s.absorbsReplay call.marker = true := hknows
            simp [habsorbs]
  | read rpc authorization => exact .inl ⟨rfl, enter_marked rpc authorization s⟩
  | download authorization r => exact .inl ⟨rfl, download_marked authorization r s⟩
  | failNext rpc times code => exact .inl ⟨rfl, rfl⟩
  | acceptOnlyTokens tokens => exact .inl ⟨rfl, rfl⟩
  | failDownloadAfterChunks chunks code => exact .inl ⟨rfl, rfl⟩
  | failUploadBeforeReading code => exact .inl ⟨rfl, rfl⟩

/-- A run is one of a service that absorbs replays, and the calls that land are those that land there. -/
theorem run_marked (s : State) (events : List Event) :
    writes.serve s.marked (s.landed events) = (s.run events).marked ∧
      writes.landed s.marked (s.landed events) = s.landed events := by
  induction events generalizing s with
  | nil => exact ⟨rfl, rfl⟩
  | cons event events ih =>
    show writes.serve s.marked ((event.lands s).toList ++ (s.step event).landed events) = ((s.step event).run events).marked ∧
      writes.landed s.marked ((event.lands s).toList ++ (s.step event).landed events) =
        (event.lands s).toList ++ (s.step event).landed events
    obtain ⟨hserve, hlanded⟩ := ih (s.step event)
    rcases step_cases s event with ⟨hnone, hmarked⟩ | ⟨call, store, hsome, hland, hmarked⟩
    · rw [hnone, ← hserve, ← hmarked]
      exact ⟨rfl, hlanded⟩
    · rw [hmarked] at hserve hlanded
      rw [hsome, ← hserve]
      have hstate : (writes.handle s.marked call).2 = s.marked.mark store call.marker := by
        rw [Absorbing.Service.handle_state, hland]
        rfl
      constructor
      · show writes.serve (writes.handle s.marked call).2 _ = _
        rw [hstate]
        rfl
      · simp only [Option.toList_some, List.cons_append, List.nil_append, Absorbing.Service.landed, hland]
        exact congrArg (call :: ·) hlanded

/-- The markers that are applied after a run: those applied before, and those of the calls that landed. -/
theorem mem_marks_run (s : State) (events : List Event) (marker : RequestMarker) :
    marker ∈ (s.run events).appliedRequests ↔
      marker ∈ s.appliedRequests ∨ ∃ call ∈ s.landed events, call.marker = some marker := by
  obtain ⟨hserve, hlanded⟩ := run_marked s events
  have h := Absorbing.Service.marks_serve writes s.marked (s.landed events)
  rw [hserve, hlanded] at h
  show marker ∈ (s.run events).marked.marks ↔ _
  rw [h]
  simp [State.marked, writes]

theorem landed_append (s : State) (events later : List Event) :
    s.landed (events ++ later) = s.landed events ++ (s.run events).landed later := by
  induction events generalizing s with
  | nil => rfl
  | cons event events ih =>
    show (event.lands s).toList ++ (s.step event).landed (events ++ later) = (event.lands s).toList ++ _ ++ _
    rw [ih, List.append_assoc]
    rfl

/-- What is stored by a write that passes its check. -/
theorem apply_eq {store store' : Store} (h : writes.apply call store = .ok store') :
    store' = call.put (store.register call.tenantId) := by
  simp only [writes] at h
  cases hcheck : call.check store with
  | error e =>
    rw [hcheck] at h
    cases h
  | ok u =>
    rw [hcheck] at h
    cases h
    rfl

/-- What every write that passes its checks keeps is kept by a run. -/
theorem run_invariant (P : Store → Prop)
    (happly : ∀ (call : WriteCall) store store', call.vet = .ok () → P store → writes.apply call store = .ok store' → P store')
    (events : List Event) (h : P s.store) : P (s.run events).store := by
  obtain ⟨hserve, -⟩ := run_marked s events
  have hkept := Absorbing.Service.serve_invariant (S := writes) (m := s.marked) P h happly (s.landed events)
  rwa [hserve] at hkept

/-- A node stays once it is there. -/
theorem nodes_stay {scope : String × String} {nodeId : String} (events : List Event)
    (h : (s.store.nodes.find? scope nodeId).isSome = true) :
    ((s.run events).store.nodes.find? scope nodeId).isSome = true := by
  refine run_invariant (fun store => (store.nodes.find? scope nodeId).isSome = true) ?_ events h
  intro call store store' _ hnode happly
  rw [apply_eq happly]
  cases call with
  | putNode r => exact Table.find?_put_isSome hnode
  | upload stream =>
    simp only [WriteCall.put]
    cases WriteCall.uploaded stream <;> exact hnode
  | putDoc r => exact hnode
  | deleteDoc r => exact hnode
  | addEdge r => exact hnode
  | deleteEdge r => exact hnode
  | delete r => exact hnode

end StoreAux

end Server

end RociaSdk
