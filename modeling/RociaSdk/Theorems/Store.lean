import RociaSdk.Lemmas.SoundAux

/-!
# The store over whole runs

What the server's store comes to in a run of any calls, of any clients: a write lands at most once under a marker, and everything
stored is what the calls that land make of it one after another (`writes_land_once`); and no edge dangles and no two edges of a graph
share a triplet (`run_sound`).
-/

namespace RociaSdk

namespace Server

open StoreAux SoundAux

/-- A call that is acknowledged lands, or its marker has been applied. -/
theorem acknowledged_cases {authorization : Option String} {call : WriteCall} {s : State}
    (h : (call.handle authorization s).1 = .ok ()) :
    (Event.call authorization call).lands s = some call ∨ ∃ marker ∈ call.marker, marker ∈ s.appliedRequests := by
  cases habsorbs : s.absorbsReplay call.marker with
  | false => exact .inl (by simp [Event.lands, h, habsorbs])
  | true =>
    right
    unfold State.absorbsReplay at habsorbs
    rw [Option.any_eq_true] at habsorbs
    obtain ⟨marker, hmarker, hmem⟩ := habsorbs
    exact ⟨marker, hmarker, by simpa using hmem⟩

/-- In every run of the server, from any state: the store comes to what the calls that land make of it one after another; no
marker lands twice, or at all if it was applied before; the markers applied at the end are those applied before and those of the
calls that land; and of the next call, one that is acknowledged lands, or its marker was applied before the run or by a call of the
run that landed, and one that is refused changes neither the store nor the markers. -/
theorem writes_land_once (s : State) (events : List Event) :
    writes.plain s.store (s.landed events) = .ok (s.run events).store ∧
      ((s.landed events).filterMap WriteCall.marker).Nodup ∧
      (∀ call ∈ s.landed events, ∀ marker ∈ call.marker, marker ∉ s.appliedRequests) ∧
      (∀ marker, marker ∈ (s.run events).appliedRequests ↔
        marker ∈ s.appliedRequests ∨ ∃ call ∈ s.landed events, call.marker = some marker) ∧
      ∀ (authorization : Option String) (call : WriteCall),
        match (call.handle authorization (s.run events)).1 with
        | .ok () => (Event.call authorization call).lands (s.run events) = some call ∨
            ∃ marker ∈ call.marker, marker ∈ s.appliedRequests ∨ ∃ earlier ∈ s.landed events, earlier.marker = some marker
        | .error _ => (call.handle authorization (s.run events)).2.marked = (s.run events).marked := by
  obtain ⟨hserve, hlanded⟩ := run_marked s events
  refine ⟨?_, ?_, ?_, mem_marks_run s events, ?_⟩
  · have h := Absorbing.Service.plain_landed writes s.marked (s.landed events)
    rwa [hserve, hlanded] at h
  · have h := Absorbing.Service.nodup_landed writes s.marked (s.landed events)
    rwa [hlanded] at h
  · intro call hcall marker hmarker
    have hmem : marker ∈ (writes.landed s.marked (s.landed events)).filterMap writes.key := by
      rw [hlanded]
      exact List.mem_filterMap.2 ⟨call, hcall, hmarker⟩
    exact Absorbing.Service.not_marked_of_landed hmem
  · intro authorization call
    split
    · rename_i hok
      rcases acknowledged_cases hok with h | ⟨marker, hmarker, hmem⟩
      · exact .inl h
      · exact .inr ⟨marker, hmarker, (mem_marks_run s events marker).1 hmem⟩
    · rename_i e herror
      rcases step_cases (s.run events) (.call authorization call) with ⟨-, h⟩ | ⟨call', store, hlands, -, -⟩
      · exact h
      · simp [Event.lands, herror] at hlands

/-- In every run of a new server: the endpoints of every edge are nodes of its graph, a triplet has at most one edge in a graph, a
file has the size and the length of checksum it was declared with and the stamps of two writes in their order, and a tenant with
data is registered. -/
theorem run_sound (nonRfc3339Timestamps : Bool) (events : List Event) :
    ((State.start nonRfc3339Timestamps).run events).store.Sound :=
  Sound.run events (Sound.start nonRfc3339Timestamps)

end Server

end RociaSdk
