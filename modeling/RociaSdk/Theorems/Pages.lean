import RociaSdk.Lemmas.ListingAux

/-!
# The page loop

`get_neighbor_nodes` walks every page of neighbors, whatever the server answers: it never sends a cursor twice, so it makes at
most one call more than there are cursors handed out, and it loses nothing of what the pages hold.
-/

namespace RociaSdk

variable {σ : Type}

open PageAux ListingAux

/-- The last page of these calls ends the pass: it has come, and its cursor is absent, empty or has been sent. -/
def Ends (calls : List PageCall) : Prop :=
  ∃ call response, calls.getLast? = some call ∧ call.answer = .ok response ∧
    ∀ page, response.page = some page → page.nextCursor = "" ∨ some page.nextCursor ∈ calls.map PageCall.sentCursor

namespace PageAux

variable {query : NeighborQuery} {calls : List PageCall}

/-- A page has a cursor to hand out when its response carries one that is not empty. -/
theorem nextCursor_eq_some {response : NeighborsResponse} {cursor : String} :
    response.nextCursor = some cursor ↔ ∃ page, response.page = some page ∧ page.nextCursor = cursor ∧ cursor ≠ "" := by
  unfold NeighborsResponse.nextCursor
  rw [Option.bind_eq_some_iff]
  simp only [nonEmpty_eq_some]

/-- A page ends the pass when no cursor that it hands out is new. -/
theorem ends_of_used {call : PageCall} {response : NeighborsResponse} (hlast : calls.getLast? = some call)
    (hanswer : call.answer = .ok response)
    (hused : ∀ cursor, call.handedCursor = some cursor → some cursor ∈ calls.map PageCall.sentCursor) : Ends calls := by
  refine ⟨call, response, hlast, hanswer, ?_⟩
  intro page hpage
  by_cases hempty : page.nextCursor = ""
  · exact .inl hempty
  · refine .inr (hused _ ?_)
    simp only [PageCall.handedCursor, hanswer]
    exact nextCursor_eq_some.2 ⟨page, hpage, rfl, hempty⟩

/-- While the loop goes on, the last page does not end the pass. -/
theorem Running.not_ends {turns : Nat} {loop : PageLoop (Recorded σ)} (h : Running query turns loop) :
    ¬Ends loop.world.calls := by
  rintro ⟨call, response, hlast, hanswer, hends⟩
  obtain ⟨before, hcalls⟩ := List.getLast?_eq_some_iff.1 hlast
  have hchained := h.chained
  have hdistinct := h.distinct
  rw [hcalls, List.map_append, List.map_append, List.map_singleton, List.map_singleton, ← List.cons_append] at hchained
  obtain ⟨hsent, hcursor⟩ := List.append_inj hchained (by simp)
  have hcursor : loop.cursor = call.handedCursor := List.singleton_inj.1 hcursor
  have hfresh : loop.cursor ∉ loop.world.calls.map PageCall.sentCursor := fun hmem =>
    (List.nodup_append.1 hdistinct).2.2 _ hmem _ (List.mem_singleton.2 rfl) rfl
  rw [hcursor] at hfresh
  cases hhanded : call.handedCursor with
  | none =>
    -- No cursor is what the first call has sent.
    refine hfresh ?_
    rw [hhanded, hcalls, List.map_append, List.map_singleton, hsent]
    exact List.mem_cons_self ..
  | some cursor =>
    simp only [PageCall.handedCursor, hanswer] at hhanded
    obtain ⟨page, hpage, rfl, hne⟩ := nextCursor_eq_some.1 hhanded
    rcases hends page hpage with hempty | hmem
    · exact hne hempty
    · refine hfresh ?_
      simp only [PageCall.handedCursor, hanswer, hhanded]
      exact hmem

/-- The loop has stopped with neighbors exactly when the last page ends the pass. -/
theorem stopped_ok_iff (unary : PageReads σ) (query : NeighborQuery) (world : σ) (turns : Nat) :
    (∃ neighbors after, pageLoop unary.recording query ⟨world, []⟩ turns = .stopped (.ok neighbors) after) ↔
      Ends (pageLoop unary.recording query ⟨world, []⟩ turns).world.calls := by
  have hholds := holds unary query world turns
  cases hstate : pageLoop unary.recording query ⟨world, []⟩ turns with
  | running loop =>
    rw [hstate] at hholds
    refine ⟨?_, fun hends => absurd hends hholds.not_ends⟩
    rintro ⟨neighbors, after, heq⟩
    cases heq
  | stopped result after =>
    rw [hstate] at hholds
    obtain ⟨call, hlast, hend⟩ := hholds.ended
    cases hanswer : call.answer with
    | error e =>
      rw [hanswer] at hend
      constructor
      · rintro ⟨neighbors, after', heq⟩
        cases heq
        cases hend
      · rintro ⟨call', response, hlast', hanswer', _⟩
        rw [show after.calls.getLast? = some call' from hlast', Option.some.injEq] at hlast
        rw [hlast, hanswer] at hanswer'
        cases hanswer'
    | ok response =>
      rw [hanswer] at hend
      obtain ⟨hused, rfl⟩ := hend
      exact ⟨fun _ => ends_of_used hlast hanswer hused, fun _ => ⟨_, after, rfl⟩⟩

/-- What the loop has collected when it stops is what the pages hold. -/
theorem neighbors_of_stopped {unary : PageReads σ} {world : σ} {turns : Nat} {neighbors : List Neighbor}
    {after : Recorded σ} (h : pageLoop unary.recording query ⟨world, []⟩ turns = .stopped (.ok neighbors) after) :
    neighbors = after.calls.flatMap PageCall.neighbors := by
  have hholds := holds unary query world turns
  rw [h] at hholds
  obtain ⟨call, _, hend⟩ := hholds.ended
  cases hanswer : call.answer with
  | error e =>
    rw [hanswer] at hend
    cases hend
  | ok response =>
    rw [hanswer] at hend
    exact Except.ok.inj hend.2

/-- The calls made are those of a pass at any time. -/
theorem pass (unary : PageReads σ) (query : NeighborQuery) (world : σ) (turns : Nat) :
    Pass query (pageLoop unary.recording query ⟨world, []⟩ turns).world.calls := by
  have hholds := holds unary query world turns
  cases hstate : pageLoop unary.recording query ⟨world, []⟩ turns with
  | running loop =>
    rw [hstate] at hholds
    exact hholds.pass
  | stopped result after =>
    rw [hstate] at hholds
    exact hholds.pass

/-- What a call of a pass sends stands in the list of the cursors handed out, with none before them. -/
theorem Pass.sent_at (h : Pass query calls) {i : Nat} {call : PageCall} (hcall : calls[i]? = some call) :
    (none :: calls.map PageCall.handedCursor)[i]? = some call.sentCursor := by
  obtain ⟨more, hmore⟩ := h.chained
  have hlt : i < (calls.map PageCall.sentCursor).length := by
    rw [List.length_map]
    exact (List.getElem?_eq_some_iff.1 hcall).1
  rw [← hmore, List.getElem?_append_left hlt, List.getElem?_map, hcall]
  rfl

/-- The first call of a pass sends no cursor. -/
theorem Pass.first (h : Pass query calls) {call : PageCall} (hcall : calls[0]? = some call) : call.sentCursor = none :=
  (Option.some.inj (h.sent_at hcall)).symm

/-- Each later call sends what the one before it was handed. -/
theorem Pass.next (h : Pass query calls) {i : Nat} {call later : PageCall} (hcall : calls[i]? = some call)
    (hlater : calls[i + 1]? = some later) : later.sentCursor = call.handedCursor ∧ call.handedCursor ≠ none := by
  have hchain := h.sent_at hlater
  rw [List.getElem?_cons_succ, List.getElem?_map, hcall] at hchain
  have heq : call.handedCursor = later.sentCursor := Option.some.inj hchain
  refine ⟨heq.symm, ?_⟩
  -- It is not none, which the first call has sent.
  intro hnone
  cases hcalls : calls with
  | nil =>
    rw [hcalls] at hlater
    cases hlater
  | cons first rest =>
    have hfirst := h.first (show calls[0]? = some first by rw [hcalls]; rfl)
    have hdistinct := h.distinct
    rw [hcalls, List.map_cons, List.nodup_cons, hfirst] at hdistinct
    rw [hcalls, List.getElem?_cons_succ] at hlater
    refine hdistinct.1 (List.mem_map.2 ⟨later, List.mem_of_getElem? hlater, ?_⟩)
    rw [← heq, hnone]

/-- With a bound on the cursors handed out, the loop stops. -/
theorem stops (unary : PageReads σ) (query : NeighborQuery) (world : σ) (bound : Nat)
    (h : ∀ turns, (handedOut (pageLoop unary.recording query ⟨world, []⟩ turns).world.calls).card ≤ bound) :
    ∃ result after, pageLoop unary.recording query ⟨world, []⟩ (bound + 1) = .stopped result after ∧
      after.calls.length ≤ bound + 1 := by
  have hholds := holds unary query world (bound + 1)
  have hbound := h (bound + 1)
  cases hstate : pageLoop unary.recording query ⟨world, []⟩ (bound + 1) with
  | running loop =>
    rw [hstate] at hholds hbound
    exact absurd (Nat.le_trans hholds.le_handedOut hbound) (Nat.not_succ_le_self bound)
  | stopped result after =>
    rw [hstate] at hholds
    exact ⟨result, after, rfl, hholds.count⟩

end PageAux

/-- Whatever the server answers, the loop asks for its pages fifty neighbors at a time, the first one without a cursor and each
later one at the cursor the one before it handed out, which is not empty, and never twice at one cursor. It stops with
neighbors exactly when the last page's cursor is absent, empty or has been sent, and these are what the pages hold, in order.
It makes at most one call more than there are cursors handed out, and so it stops if these are bounded. A listing that is
served in pages it reads to its end, and fetches every page of it once. -/
theorem page_loop (unary : PageReads σ) (query : NeighborQuery) (world : σ) :
    (∀ turns, let calls := (pageLoop unary.recording query ⟨world, []⟩ turns).world.calls
      (∀ call ∈ calls, call.request = query.request (some ⟨some neighborPageSize, call.sentCursor.getD ""⟩)) ∧
      (∀ call, calls[0]? = some call → call.sentCursor = none) ∧
      (∀ (i : Nat) call later, calls[i]? = some call → calls[i + 1]? = some later →
        later.sentCursor = call.handedCursor ∧ call.handedCursor ≠ none) ∧
      (calls.map PageCall.sentCursor).Nodup ∧
      ((∃ neighbors after, pageLoop unary.recording query ⟨world, []⟩ turns = .stopped (.ok neighbors) after) ↔
        Ends calls) ∧
      (∀ neighbors after, pageLoop unary.recording query ⟨world, []⟩ turns = .stopped (.ok neighbors) after →
        neighbors = after.calls.flatMap PageCall.neighbors) ∧
      calls.length ≤ (handedOut calls).card + 1) ∧
    (∀ bound : Nat,
      (∀ turns, (handedOut (pageLoop unary.recording query ⟨world, []⟩ turns).world.calls).card ≤ bound) →
        ∃ result after, pageLoop unary.recording query ⟨world, []⟩ (bound + 1) = .stopped result after ∧
          after.calls.length ≤ bound + 1) ∧
    ∀ listing : Listing, listing.Serves query unary →
      ∃ turns after, pageLoop unary.recording query ⟨world, []⟩ turns = .stopped (.ok listing.entries) after ∧
        (∀ call ∈ after.calls, listing.OnPath neighborPageSize (call.sentCursor.getD "")) ∧
        ∀ cursor, listing.OnPath neighborPageSize cursor →
          (after.calls.map PageCall.sentCursor).count (nonEmpty cursor) = 1 := by
  refine ⟨?_, stops unary query world, ?_⟩
  · intro turns
    have hpass := pass unary query world turns
    exact ⟨hpass.requests, fun _ => hpass.first, fun _ _ _ => hpass.next, hpass.distinct,
      stopped_ok_iff unary query world turns, fun _ _ => neighbors_of_stopped, hpass.length_le⟩
  · intro listing hserves
    obtain ⟨turns, after, hstate, hread⟩ := reads hserves world
    have hpass := pass unary query world turns
    rw [hstate] at hpass
    exact ⟨turns, after, hstate, fun call hcall => (hread.served call hcall).onPath, fun _ => hread.count hpass⟩

/-! ## A listing of two pages -/

/-- A listing of one neighbor, served as a page that holds it and an empty one. -/
def twoPages : Listing where
  issued cursor := cursor = "" ∨ cursor = "a"
  rest cursor := if cursor = "" then [⟨"node", "edge"⟩] else []
  items _ cursor := if cursor = "" then [⟨"node", "edge"⟩] else []
  nextCursor _ cursor := if cursor = "" then "a" else ""
  distance _ cursor := if cursor = "" then 1 else 0
  beginning := .inl rfl
  next_issued _ _ _ h := by
    rcases h with rfl | rfl
    · exact .inr rfl
    · exact .inl rfl
  short limit cursor hlimit h := by
    rcases h with rfl | rfl
    · exact Nat.succ_le_of_lt (UInt32.lt_iff_toNat_lt.1 hlimit)
    · exact Nat.zero_le _
  run _ _ _ h := by
    rcases h with rfl | rfl
    · rfl
    · rfl
  acyclic _ _ _ h hne := by
    rcases h with rfl | rfl
    · exact Nat.zero_lt_one
    · exact absurd rfl hne

/-- A server of that listing. -/
def twoPagesServer : PageReads Unit := fun _ request _ =>
  match request.page with
  | some page =>
    (.ok { neighbors := twoPages.items 0 page.cursor, page := some { nextCursor := twoPages.nextCursor 0 page.cursor } }, ())
  | none => (.ok { neighbors := [], page := none }, ())

/-- The server serves it. -/
theorem twoPages_serves (query : NeighborQuery) : twoPages.Serves query twoPagesServer := by
  intro operation limit cursor world _ _
  refine ⟨{ neighbors := twoPages.items 0 cursor, page := some { nextCursor := twoPages.nextCursor 0 cursor } }, ?_, rfl, rfl⟩
  unfold twoPagesServer
  rw [request_page]

/-- A query for it. -/
def twoPagesQuery : NeighborQuery := ⟨"tenant", "graph", "node", "label", .outgoing⟩

/-- On that server the loop makes two calls. -/
theorem page_loop_twoPages :
    (∃ result after, pageLoop twoPagesServer.recording twoPagesQuery ⟨(), []⟩ 2 = .stopped result after ∧
      after.calls.length ≤ 2) ∧
    ∃ turns after, pageLoop twoPagesServer.recording twoPagesQuery ⟨(), []⟩ turns = .stopped (.ok twoPages.entries) after ∧
      (after.calls.map PageCall.sentCursor).count (nonEmpty "a") = 1 := by
  have htwo : ∃ after, pageLoop twoPagesServer.recording twoPagesQuery ⟨(), []⟩ 2 = .stopped (.ok [⟨"node", "edge"⟩]) after ∧
      (handedOut after.calls).card ≤ 1 := ⟨_, rfl, by decide⟩
  obtain ⟨after, hstopped, hcard⟩ := htwo
  refine ⟨(page_loop twoPagesServer twoPagesQuery ()).2.1 1 ?_, ?_⟩
  · intro turns
    match turns with
    | 0 => decide
    | 1 => decide
    | turns + 2 =>
      rw [Nat.add_comm, stopped_stays turns hstopped]
      exact hcard
  · obtain ⟨turns, after, hstate, _, hcount⟩ :=
      (page_loop twoPagesServer twoPagesQuery ()).2.2 twoPages (twoPages_serves twoPagesQuery)
    exact ⟨turns, after, hstate, hcount "a" (.next .beginning (by decide))⟩

end RociaSdk
