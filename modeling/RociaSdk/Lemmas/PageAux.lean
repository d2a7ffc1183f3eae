import Mathlib.Data.Finset.Card
import Mathlib.Data.List.Nodup
import RociaSdk.Neighbors

/-!
# Turns of the page loop

What one turn of the loop of `get_neighbor_nodes` does, with its calls recorded, and what holds of the calls of a pass: the cursors
sent are none followed by the cursors handed out, and no two of them are equal.
-/

namespace RociaSdk

variable {σ : Type} {unary : PageReads σ} {query : NeighborQuery}

/-- The operation a query makes its calls for. -/
def NeighborQuery.operation (query : NeighborQuery) : String :=
  match query.direction with
  | .outgoing => "failed to get outgoing neighbors"
  | .incoming => "failed to get incoming neighbors"

/-- The call a query makes in a world for a page. -/
def NeighborQuery.call (query : NeighborQuery) (unary : PageReads σ) (page : PageRequest) (world : σ) : PageCall :=
  { request := query.request (some page), answer := (unary query.operation (query.request (some page)) world).1 }

/-- The cursors that have been sent when a turn decides whether to go on. -/
def PageLoop.sent (loop : PageLoop σ) : Finset String :=
  match loop.cursor with
  | some current => insert current loop.seenCursors
  | none => loop.seenCursors

/-- The page a turn asks for. -/
def PageLoop.page (loop : PageLoop σ) : PageRequest := { limit := some neighborPageSize, cursor := loop.cursor.getD "" }

namespace PageAux

/-! ## Cursors -/

/-- An empty cursor is none. -/
theorem nonEmpty_eq_some {value cursor : String} : nonEmpty value = some cursor ↔ value = cursor ∧ cursor ≠ "" := by
  unfold nonEmpty
  split
  · rename_i h
    constructor
    · intro hnone
      cases hnone
    · rintro ⟨rfl, hne⟩
      exact absurd h hne
  · rename_i h
    constructor
    · intro heq
      cases heq
      exact ⟨rfl, h⟩
    · rintro ⟨rfl, _⟩
      rfl

/-- A cursor that is not empty goes out as it is. -/
theorem nonEmpty_getD {cursor : Option String} (h : cursor ≠ some "") : nonEmpty (cursor.getD "") = cursor := by
  cases cursor with
  | none => rfl
  | some c => exact nonEmpty_eq_some.2 ⟨rfl, fun hc => h (by rw [hc])⟩

/-- What stands for no cursor is the empty one. -/
theorem getD_nonEmpty (value : String) : (nonEmpty value).getD "" = value := by
  unfold nonEmpty
  split
  · rename_i h
    exact h.symm
  · rfl

/-- No empty cursor is handed out. -/
theorem handedCursor_ne (call : PageCall) : call.handedCursor ≠ some "" := by
  unfold PageCall.handedCursor
  split
  · rename_i response _
    unfold NeighborsResponse.nextCursor
    cases response.page with
    | none => exact nofun
    | some page =>
      intro h
      exact (nonEmpty_eq_some.1 h).2 rfl
  · exact nofun

/-- What the request of a query holds. -/
theorem request_page (query : NeighborQuery) (page : Option PageRequest) : (query.request page).page = page := by
  unfold NeighborQuery.request
  cases query.direction <;> rfl

/-! ## One turn -/

/-- A page of a query fails with its unary call. -/
theorem neighbors_error {limit : Option UInt32} {cursor : Option String} {world after : σ} {e : RociaDbError}
    (hlimit : limit ≠ some 0)
    (h : unary query.operation (query.request (some ⟨some (limit.getD defaultPageSize), cursor.getD ""⟩)) world =
      (.error e, after)) : query.neighbors unary limit cursor world = (.error e, after) := by
  unfold NeighborQuery.operation NeighborQuery.request at h
  unfold NeighborQuery.neighbors
  cases hdirection : query.direction <;> simp only [hdirection] at h ⊢ <;>
    simp only [neighborsOut, neighborsIn, neighborsPage, pageRequest, if_neg hlimit, h]

/-- A page of a query is what its unary call answers. -/
theorem neighbors_ok {limit : Option UInt32} {cursor : Option String} {world after : σ} {response : NeighborsResponse}
    (hlimit : limit ≠ some 0)
    (h : unary query.operation (query.request (some ⟨some (limit.getD defaultPageSize), cursor.getD ""⟩)) world =
      (.ok response, after)) :
    query.neighbors unary limit cursor world =
      (.ok { items := response.neighbors, nextCursor := response.nextCursor }, after) := by
  unfold NeighborQuery.operation NeighborQuery.request at h
  unfold NeighborQuery.neighbors
  cases hdirection : query.direction <;> simp only [hdirection] at h ⊢ <;>
    simp only [neighborsOut, neighborsIn, neighborsPage, pageRequest, if_neg hlimit, h]

section

variable {loop : PageLoop σ} {world : σ} {page : Page Neighbor}

/-- A turn whose page fails stops with the error. -/
theorem turn_error {e : RociaDbError}
    (h : query.neighbors unary (some neighborPageSize) loop.cursor loop.world = (.error e, world)) :
    loop.turn unary query = .stopped (.error e) world := by
  unfold PageLoop.turn
  rw [h]

/-- One whose page hands out a new cursor goes on with it. -/
theorem turn_next {cursor : String}
    (h : query.neighbors unary (some neighborPageSize) loop.cursor loop.world = (.ok page, world))
    (hnext : nextPaginationCursor loop.sent page.nextCursor = some cursor) :
    loop.turn unary query =
      .running { world, cursor := some cursor, seenCursors := loop.sent, neighbors := loop.neighbors ++ page.items } := by
  unfold PageLoop.sent at hnext ⊢
  unfold PageLoop.turn
  rw [h]
  cases hcursor : loop.cursor with
  | none =>
    rw [hcursor] at hnext
    simp only [hnext]
  | some current =>
    rw [hcursor] at hnext
    simp only [hnext]

/-- One whose page does not stops with what it has. -/
theorem turn_last (h : query.neighbors unary (some neighborPageSize) loop.cursor loop.world = (.ok page, world))
    (hnext : nextPaginationCursor loop.sent page.nextCursor = none) :
    loop.turn unary query = .stopped (.ok (loop.neighbors ++ page.items)) world := by
  unfold PageLoop.sent at hnext
  unfold PageLoop.turn
  rw [h]
  cases hcursor : loop.cursor with
  | none =>
    rw [hcursor] at hnext
    simp only [hnext]
  | some current =>
    rw [hcursor] at hnext
    simp only [hnext]

end

/-- What a turn of a recorded loop does. -/
inductive Turn (query : NeighborQuery) (loop : PageLoop (Recorded σ)) (call : PageCall) (world : σ) :
    LoopState (Recorded σ) → Prop where
  | failed (e : RociaDbError) (h : call.answer = .error e) :
      Turn query loop call world (.stopped (.error e) ⟨world, loop.world.calls ++ [call]⟩)
  | next (response : NeighborsResponse) (cursor : String) (h : call.answer = .ok response)
      (hcursor : response.nextCursor = some cursor) (hfresh : cursor ∉ loop.sent) :
      Turn query loop call world
        (.running
          { world := ⟨world, loop.world.calls ++ [call]⟩
            cursor := some cursor
            seenCursors := loop.sent
            neighbors := loop.neighbors ++ response.neighbors })
  | last (response : NeighborsResponse) (h : call.answer = .ok response)
      (hused : ∀ cursor, response.nextCursor = some cursor → cursor ∈ loop.sent) :
      Turn query loop call world
        (.stopped (.ok (loop.neighbors ++ response.neighbors)) ⟨world, loop.world.calls ++ [call]⟩)

/-- What it does is decided by what its call is answered. -/
theorem turn_cases (unary : PageReads σ) (query : NeighborQuery) (loop : PageLoop (Recorded σ)) :
    ∃ world, Turn query loop (query.call unary loop.page loop.world.world) world (loop.turn unary.recording query) := by
  have hlimit : some neighborPageSize ≠ some 0 := by decide
  refine ⟨(unary query.operation (query.request (some loop.page)) loop.world.world).2, ?_⟩
  -- The recorded call gives its answer and leaves its world with itself at the end of the calls.
  have hcall : unary.recording query.operation (query.request (some loop.page)) loop.world =
      ((query.call unary loop.page loop.world.world).answer,
        ⟨(unary query.operation (query.request (some loop.page)) loop.world.world).2,
          loop.world.calls ++ [query.call unary loop.page loop.world.world]⟩) := rfl
  cases hanswer : (query.call unary loop.page loop.world.world).answer with
  | error e =>
    rw [hanswer] at hcall
    rw [turn_error (neighbors_error hlimit hcall)]
    exact .failed e hanswer
  | ok response =>
    rw [hanswer] at hcall
    have hpage := neighbors_ok hlimit hcall
    cases hnext : response.nextCursor with
    | none =>
      have hnone : nextPaginationCursor loop.sent response.nextCursor = none := by
        rw [hnext]
        rfl
      rw [turn_last hpage hnone]
      refine .last response hanswer ?_
      intro cursor hcursor
      rw [hnext] at hcursor
      cases hcursor
    | some cursor =>
      by_cases hused : cursor ∈ loop.sent
      · have hnone : nextPaginationCursor loop.sent response.nextCursor = none := by
          rw [hnext]
          exact if_pos hused
        rw [turn_last hpage hnone]
        refine .last response hanswer ?_
        intro cursor' hcursor'
        rw [hnext] at hcursor'
        cases hcursor'
        exact hused
      · have hsome : nextPaginationCursor loop.sent response.nextCursor = some cursor := by
          rw [hnext]
          exact if_neg hused
        rw [turn_next hpage hsome]
        exact .next response cursor hanswer hnext hused

/-! ## Recording -/

/-- The loop without its record. -/
def erase (loop : PageLoop (Recorded σ)) : PageLoop σ :=
  { world := loop.world.world, cursor := loop.cursor, seenCursors := loop.seenCursors, neighbors := loop.neighbors }

/-- How far a loop is, without its record. -/
def eraseState : LoopState (Recorded σ) → LoopState σ
  | .running loop => .running (erase loop)
  | .stopped result after => .stopped result after.world

/-- A recorded page is the page, in a world with one call more. -/
theorem neighbors_recording (unary : PageReads σ) (query : NeighborQuery) (cursor : Option String) (recorded : Recorded σ) :
    ∃ calls, query.neighbors unary.recording (some neighborPageSize) cursor recorded =
      ((query.neighbors unary (some neighborPageSize) cursor recorded.world).1,
        ⟨(query.neighbors unary (some neighborPageSize) cursor recorded.world).2, calls⟩) := by
  have hlimit : some neighborPageSize ≠ some 0 := by decide
  cases hanswer : unary query.operation (query.request (some ⟨some neighborPageSize, cursor.getD ""⟩)) recorded.world with
  | mk answer after =>
    have hrecorded : unary.recording query.operation (query.request (some ⟨some neighborPageSize, cursor.getD ""⟩)) recorded =
        (answer, ⟨after, recorded.calls ++
          [⟨query.request (some ⟨some neighborPageSize, cursor.getD ""⟩), answer⟩]⟩) := by
      simp only [PageReads.recording, hanswer]
    cases answer with
    | error e =>
      rw [neighbors_error hlimit hanswer, neighbors_error hlimit hrecorded]
      exact ⟨_, rfl⟩
    | ok response =>
      rw [neighbors_ok hlimit hanswer, neighbors_ok hlimit hrecorded]
      exact ⟨_, rfl⟩

/-- Recording changes nothing about a turn. -/
theorem turn_recording (unary : PageReads σ) (query : NeighborQuery) (loop : PageLoop (Recorded σ)) :
    eraseState (loop.turn unary.recording query) = (erase loop).turn unary query := by
  obtain ⟨calls, hcalls⟩ := neighbors_recording unary query loop.cursor loop.world
  cases hpage : query.neighbors unary (some neighborPageSize) loop.cursor loop.world.world with
  | mk answer after =>
    have hplain : query.neighbors unary (some neighborPageSize) (erase loop).cursor (erase loop).world = (answer, after) := hpage
    rw [hpage] at hcalls
    cases answer with
    | error e =>
      rw [turn_error hcalls, turn_error hplain]
      rfl
    | ok page =>
      cases hnext : nextPaginationCursor loop.sent page.nextCursor with
      | none =>
        rw [turn_last hcalls hnext, turn_last hplain hnext]
        rfl
      | some cursor =>
        rw [turn_next hcalls hnext, turn_next hplain hnext]
        rfl

/-- Recording changes nothing about the loop. -/
theorem pageLoop_recording (unary : PageReads σ) (query : NeighborQuery) (world : σ) (turns : Nat) :
    eraseState (pageLoop unary.recording query ⟨world, []⟩ turns) = pageLoop unary query world turns := by
  induction turns with
  | zero => rfl
  | succ turns ih =>
    unfold pageLoop
    rw [← ih]
    cases pageLoop unary.recording query ⟨world, []⟩ turns with
    | running loop => exact turn_recording unary query loop
    | stopped result after => rfl

/-! ## A pass -/

/-- The cursors that have been handed out, other than the empty one. -/
def handedOut (calls : List PageCall) : Finset String := (calls.filterMap PageCall.handedCursor).toFinset

/-- What holds of the calls of a pass at any time. -/
structure Pass (query : NeighborQuery) (calls : List PageCall) : Prop where
  requests : ∀ call ∈ calls, call.request = query.request (some ⟨some neighborPageSize, call.sentCursor.getD ""⟩)
  chained : calls.map PageCall.sentCursor <+: none :: calls.map PageCall.handedCursor
  distinct : (calls.map PageCall.sentCursor).Nodup

/-- What holds between two turns. -/
structure Running (query : NeighborQuery) (turns : Nat) (loop : PageLoop (Recorded σ)) : Prop where
  requests : ∀ call ∈ loop.world.calls,
    call.request = query.request (some ⟨some neighborPageSize, call.sentCursor.getD ""⟩)
  chained : loop.world.calls.map PageCall.sentCursor ++ [loop.cursor] = none :: loop.world.calls.map PageCall.handedCursor
  distinct : (loop.world.calls.map PageCall.sentCursor ++ [loop.cursor]).Nodup
  sent : ∀ cursor, cursor ∈ loop.sent ↔ some cursor ∈ loop.world.calls.map PageCall.sentCursor ++ [loop.cursor]
  neighbors : loop.neighbors = loop.world.calls.flatMap PageCall.neighbors
  answered : ∀ call ∈ loop.world.calls, ∃ response, call.answer = .ok response
  count : loop.world.calls.length = turns

/-- What holds once the loop has stopped. -/
structure Stopped (query : NeighborQuery) (turns : Nat) (result : Result (List Neighbor)) (calls : List PageCall) : Prop where
  pass : Pass query calls
  count : calls.length ≤ turns
  ended : ∃ call, calls.getLast? = some call ∧
    match call.answer with
    | .error e => result = .error e
    | .ok _ =>
      (∀ cursor, call.handedCursor = some cursor → some cursor ∈ calls.map PageCall.sentCursor) ∧
        result = .ok (calls.flatMap PageCall.neighbors)

/-- What holds of the loop at any time. -/
def Holds (query : NeighborQuery) (turns : Nat) : LoopState (Recorded σ) → Prop
  | .running loop => Running query turns loop
  | .stopped result after => Stopped query turns result after.calls

variable {loop : PageLoop (Recorded σ)} {turns : Nat}

/-- The calls made before a turn are those of a pass. -/
theorem Running.pass (h : Running query turns loop) : Pass query loop.world.calls where
  requests := h.requests
  chained := by
    rw [← h.chained]
    exact List.prefix_append _ _
  distinct := (List.nodup_append.1 h.distinct).1

/-- The cursor of the next turn is not the empty one. -/
theorem Running.cursor_ne (h : Running query turns loop) : loop.cursor ≠ some "" := by
  have hmem : loop.cursor ∈ none :: loop.world.calls.map PageCall.handedCursor := by
    rw [← h.chained]
    exact List.mem_append_right _ (List.mem_singleton.2 rfl)
  rcases List.mem_cons.1 hmem with hnone | hmem
  · rw [hnone]
    exact nofun
  · obtain ⟨call, _, hcall⟩ := List.mem_map.1 hmem
    rw [← hcall]
    exact handedCursor_ne call

/-- The call of a turn sends the cursor of the loop. -/
theorem Running.sentCursor_call (h : Running query turns loop) :
    (query.call unary loop.page loop.world.world).sentCursor = loop.cursor := by
  have hpage : (query.call unary loop.page loop.world.world).request.page = some loop.page := request_page query _
  unfold PageCall.sentCursor
  rw [hpage]
  exact nonEmpty_getD h.cursor_ne

/-- With the call of a turn, the calls are still those of a pass. -/
theorem Running.pass_call (h : Running query turns loop) :
    Pass query (loop.world.calls ++ [query.call unary loop.page loop.world.world]) where
  requests := by
    intro call hmem
    rcases List.mem_append.1 hmem with hmem | hmem
    · exact h.requests call hmem
    · rw [List.mem_singleton.1 hmem, h.sentCursor_call]
      rfl
  chained := by
    simp only [List.map_append, List.map_cons, List.map_nil, h.sentCursor_call, h.chained]
    rw [← List.cons_append]
    exact List.prefix_append _ _
  distinct := by
    simp only [List.map_append, List.map_cons, List.map_nil, h.sentCursor_call]
    exact h.distinct

/-- The neighbors of the calls, with those of one call more. -/
theorem Running.neighbors_call (h : Running query turns loop) {response : NeighborsResponse} {call : PageCall}
    (hanswer : call.answer = .ok response) :
    loop.neighbors ++ response.neighbors = (loop.world.calls ++ [call]).flatMap PageCall.neighbors := by
  have hcall : call.neighbors = response.neighbors := by simp only [PageCall.neighbors, hanswer]
  rw [List.flatMap_append, h.neighbors, List.flatMap_singleton, hcall]

/-- A turn keeps what holds of the loop. -/
theorem Running.turn (h : Running query turns loop) {world : σ} {state : LoopState (Recorded σ)}
    (ht : Turn query loop (query.call unary loop.page loop.world.world) world state) : Holds query (turns + 1) state := by
  have hlen : (loop.world.calls ++ [query.call unary loop.page loop.world.world]).length = turns + 1 := by
    rw [List.length_append, h.count, List.length_singleton]
  cases ht with
  | failed e hanswer =>
    refine ⟨h.pass_call, Nat.le_of_eq hlen, query.call unary loop.page loop.world.world, List.getLast?_concat, ?_⟩
    rw [hanswer]
  | last response hanswer hused =>
    refine ⟨h.pass_call, Nat.le_of_eq hlen, query.call unary loop.page loop.world.world, List.getLast?_concat, ?_⟩
    rw [hanswer]
    refine ⟨?_, by rw [h.neighbors_call hanswer]⟩
    intro cursor hcursor
    simp only [PageCall.handedCursor, hanswer] at hcursor
    rw [List.map_append, List.map_cons, List.map_nil, h.sentCursor_call]
    exact (h.sent cursor).1 (hused cursor hcursor)
  | next response cursor hanswer hcursor hfresh =>
    have hhanded : (query.call unary loop.page loop.world.world).handedCursor = some cursor := by
      simp only [PageCall.handedCursor, hanswer, hcursor]
    have hsent : (loop.world.calls ++ [query.call unary loop.page loop.world.world]).map PageCall.sentCursor =
        loop.world.calls.map PageCall.sentCursor ++ [loop.cursor] := by
      rw [List.map_append, List.map_cons, List.map_nil, h.sentCursor_call]
    refine ⟨h.pass_call.requests, ?_, ?_, ?_, h.neighbors_call hanswer, ?_, hlen⟩
    · show List.map _ (_ ++ [_]) ++ [some cursor] = none :: List.map _ (_ ++ [_])
      rw [hsent, h.chained, List.map_append, List.map_cons, List.map_nil, hhanded]
      rfl
    · show (List.map _ (_ ++ [_]) ++ [some cursor]).Nodup
      rw [hsent, List.nodup_append]
      refine ⟨h.distinct, List.nodup_singleton _, ?_⟩
      rintro a ha b hb rfl
      rw [List.mem_singleton.1 hb] at ha
      exact hfresh ((h.sent cursor).2 ha)
    · intro c
      show c ∈ insert cursor loop.sent ↔ some c ∈ List.map _ (_ ++ [_]) ++ [some cursor]
      rw [hsent, Finset.mem_insert, h.sent c, List.mem_append (s := _ ++ _), List.mem_singleton, Option.some.injEq]
      exact or_comm
    · intro call hmem
      rcases List.mem_append.1 hmem with hmem | hmem
      · exact h.answered call hmem
      · rw [List.mem_singleton.1 hmem]
        exact ⟨response, hanswer⟩

/-- The loop before its first turn. -/
theorem running_start (query : NeighborQuery) (world : σ) :
    Running query 0 { world := ⟨world, []⟩, cursor := none, seenCursors := ∅, neighbors := [] } where
  requests _ hcall := absurd hcall List.not_mem_nil
  chained := rfl
  distinct := List.nodup_singleton _
  sent cursor := by simp [PageLoop.sent]
  neighbors := rfl
  answered _ hcall := absurd hcall List.not_mem_nil
  count := rfl

/-- What holds of the loop after any number of turns. -/
theorem holds (unary : PageReads σ) (query : NeighborQuery) (world : σ) (turns : Nat) :
    Holds query turns (pageLoop unary.recording query ⟨world, []⟩ turns) := by
  induction turns with
  | zero => exact running_start query world
  | succ turns ih =>
    unfold pageLoop
    cases hstate : pageLoop unary.recording query ⟨world, []⟩ turns with
    | running loop =>
      rw [hstate] at ih
      obtain ⟨after, ht⟩ := turn_cases unary query loop
      exact ih.turn ht
    | stopped result after =>
      rw [hstate] at ih
      exact ⟨ih.pass, Nat.le_succ_of_le ih.count, ih.ended⟩

/-- A loop that has stopped stays as it is. -/
theorem stopped_stays {unary : PageReads σ} {world after : σ} {result : Result (List Neighbor)} (later : Nat)
    (h : pageLoop unary query world turns = .stopped result after) :
    pageLoop unary query world (turns + later) = .stopped result after := by
  induction later with
  | zero => exact h
  | succ later ih =>
    show pageLoop unary query world (turns + later + 1) = _
    unfold pageLoop
    rw [ih]

/-- Each call of a pass but the first one sends what the one before it was handed. -/
theorem Pass.sent_eq {before : List PageCall} {last : PageCall} (h : Pass query (before ++ [last])) :
    (before ++ [last]).map PageCall.sentCursor = none :: before.map PageCall.handedCursor := by
  have htake := List.prefix_iff_eq_take.1 h.chained
  have hlen : ((before ++ [last]).map PageCall.sentCursor).length =
      (none :: before.map PageCall.handedCursor).length := by simp
  rw [htake, hlen, List.map_append, ← List.cons_append, List.take_left]

/-! ## Counting cursors -/

/-- Options other than `none` are values. -/
theorem exists_map_some {α : Type} {options : List (Option α)} (h : none ∉ options) :
    ∃ values : List α, options = values.map some := by
  induction options with
  | nil => exact ⟨[], rfl⟩
  | cons option rest ih =>
    rw [List.mem_cons, not_or] at h
    obtain ⟨values, rfl⟩ := ih h.2
    cases option with
    | none => exact absurd rfl h.1
    | some value => exact ⟨value :: values, rfl⟩

/-- There are at least as many cursors handed out as distinct ones among them. -/
theorem length_le_handedOut {calls : List PageCall} {cursors : List (Option String)} (hdistinct : (none :: cursors).Nodup)
    (hhanded : ∀ cursor ∈ cursors, cursor ∈ calls.map PageCall.handedCursor) : cursors.length ≤ (handedOut calls).card := by
  obtain ⟨hnone, hdistinct⟩ := List.nodup_cons.1 hdistinct
  obtain ⟨values, rfl⟩ := exists_map_some hnone
  have hvalues : values.Nodup := hdistinct.of_map some
  rw [List.length_map, ← List.toFinset_card_of_nodup hvalues]
  apply Finset.card_le_card
  intro value hvalue
  obtain ⟨call, hcall, heq⟩ := List.mem_map.1 (hhanded (some value) (List.mem_map.2 ⟨value, List.mem_toFinset.1 hvalue, rfl⟩))
  exact List.mem_toFinset.2 (List.mem_filterMap.2 ⟨call, hcall, heq⟩)

/-- A pass makes at most one call more than cursors have been handed out. -/
theorem Pass.length_le {calls : List PageCall} (h : Pass query calls) : calls.length ≤ (handedOut calls).card + 1 := by
  obtain ⟨more, hmore⟩ := h.chained
  cases hsent : calls.map PageCall.sentCursor with
  | nil =>
    rw [List.map_eq_nil_iff] at hsent
    rw [hsent]
    exact Nat.zero_le _
  | cons first rest =>
    rw [hsent, List.cons_append, List.cons.injEq] at hmore
    have hdistinct := h.distinct
    rw [hsent, hmore.1] at hdistinct
    have hle : rest.length ≤ (handedOut calls).card := by
      refine length_le_handedOut hdistinct ?_
      intro cursor hcursor
      rw [← hmore.2]
      exact List.mem_append_left _ hcursor
    have hlen : calls.length = rest.length + 1 := by
      rw [← List.length_map PageCall.sentCursor, hsent, List.length_cons]
    omega

/-- As long as the loop goes on, every call has handed out a new cursor. -/
theorem Running.le_handedOut (h : Running query turns loop) : turns ≤ (handedOut loop.world.calls).card := by
  have hdistinct := h.distinct
  rw [h.chained] at hdistinct
  have hle := length_le_handedOut hdistinct fun _ hcursor => hcursor
  rw [List.length_map, h.count] at hle
  exact hle

end PageAux

end RociaSdk
