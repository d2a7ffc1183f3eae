import RociaSdk.Lemmas.PageAux

/-!
# Reading a listing page by page

The page loop on a listing that is served in pages: it reads the whole of it, in order, and fetches every page of it once.
-/

namespace RociaSdk

variable {σ : Type} {unary : PageReads σ} {query : NeighborQuery} {listing : Listing}

/-- The cursors of the pages of a listing, from the first one on. -/
inductive Listing.OnPath (listing : Listing) (limit : UInt32) : String → Prop where
  | beginning : listing.OnPath limit ""
  | next {cursor : String} : listing.OnPath limit cursor → listing.nextCursor limit cursor ≠ "" →
      listing.OnPath limit (listing.nextCursor limit cursor)

namespace ListingAux

open PageAux

/-- Every cursor of a page is issued. -/
theorem issued_of_onPath {limit : UInt32} {cursor : String} (hlimit : 0 < limit) (h : listing.OnPath limit cursor) :
    listing.issued cursor := by
  induction h with
  | beginning => exact listing.beginning
  | next _ _ ih => exact listing.next_issued limit _ hlimit ih

/-- What is left of a listing at its last page is that page. -/
theorem rest_last {limit : UInt32} {cursor : String} (hlimit : 0 < limit) (h : listing.issued cursor)
    (hlast : listing.nextCursor limit cursor = "") : listing.rest cursor = listing.items limit cursor := by
  rw [listing.run limit cursor hlimit h, if_pos hlast, List.append_nil]

/-- What is left of a listing at a page is that page and what is left at the next one. -/
theorem rest_next {limit : UInt32} {cursor : String} (hlimit : 0 < limit) (h : listing.issued cursor)
    (hnext : listing.nextCursor limit cursor ≠ "") :
    listing.rest cursor = listing.items limit cursor ++ listing.rest (listing.nextCursor limit cursor) := by
  rw [listing.run limit cursor hlimit h, if_neg hnext]

theorem pageSize_pos : 0 < neighborPageSize := by decide

/-- A call of the loop on a listing, made for a page of it. -/
structure Served (listing : Listing) (call : PageCall) : Prop where
  onPath : listing.OnPath neighborPageSize (call.sentCursor.getD "")
  handed : call.handedCursor = nonEmpty (listing.nextCursor neighborPageSize (call.sentCursor.getD ""))

/-- What holds between two turns on a listing. -/
structure Reading (listing : Listing) (loop : PageLoop (Recorded σ)) : Prop where
  onPath : listing.OnPath neighborPageSize (loop.cursor.getD "")
  read : listing.entries = loop.neighbors ++ listing.rest (loop.cursor.getD "")
  /-- No cursor that has been sent is nearer to the end. -/
  ahead : ∀ cursor ∈ loop.sent,
    listing.distance neighborPageSize (loop.cursor.getD "") ≤ listing.distance neighborPageSize cursor
  served : ∀ call ∈ loop.world.calls, Served listing call

/-- What holds once the loop has read a listing. -/
structure HasRead (listing : Listing) (calls : List PageCall) : Prop where
  served : ∀ call ∈ calls, Served listing call
  ended : ∃ before last, calls = before ++ [last] ∧ last.handedCursor = none

variable {loop : PageLoop (Recorded σ)} {turns : Nat}

/-- A turn on a listing comes to the next page, or to the end with everything read. -/
theorem Reading.turn (h : Reading listing loop) (hrun : Running query turns loop) (hserves : listing.Serves query unary)
    {world : σ} {state : LoopState (Recorded σ)}
    (ht : Turn query loop (query.call unary loop.page loop.world.world) world state) :
    (∃ loop', state = .running loop' ∧ Reading listing loop' ∧
      listing.distance neighborPageSize (loop'.cursor.getD "") < listing.distance neighborPageSize (loop.cursor.getD "")) ∨
    ∃ after, state = .stopped (.ok listing.entries) after ∧ HasRead listing after.calls := by
  have hissued := issued_of_onPath pageSize_pos h.onPath
  obtain ⟨response, hanswer, hitems, hnext⟩ := hserves query.operation neighborPageSize (loop.cursor.getD "")
    loop.world.world pageSize_pos hissued
  have hcall : (query.call unary loop.page loop.world.world).answer = .ok response := hanswer
  have hserved : Served listing (query.call unary loop.page loop.world.world) := by
    refine ⟨?_, ?_⟩
    · rw [hrun.sentCursor_call]
      exact h.onPath
    · simp only [PageCall.handedCursor, hcall]
      rw [hrun.sentCursor_call, hnext]
  have hall : ∀ call ∈ loop.world.calls ++ [query.call unary loop.page loop.world.world], Served listing call := by
    intro call hmem
    rcases List.mem_append.1 hmem with hmem | hmem
    · exact h.served call hmem
    · rw [List.mem_singleton.1 hmem]
      exact hserved
  cases ht with
  | failed e herror =>
    rw [hcall] at herror
    cases herror
  | next response' cursor hanswer' hcursor hfresh =>
    rw [hcall] at hanswer'
    cases hanswer'
    rw [hnext] at hcursor
    obtain ⟨heq, hne⟩ := nonEmpty_eq_some.1 hcursor
    have hnear := listing.acyclic neighborPageSize (loop.cursor.getD "") pageSize_pos hissued (by rw [heq]; exact hne)
    rw [heq] at hnear
    refine .inl ⟨_, rfl, ⟨?_, ?_, ?_, hall⟩, hnear⟩
    · show listing.OnPath neighborPageSize cursor
      rw [← heq]
      exact h.onPath.next (by rw [heq]; exact hne)
    · show listing.entries = _ ++ _ ++ listing.rest cursor
      rw [h.read, rest_next pageSize_pos hissued (by rw [heq]; exact hne), heq, hitems, List.append_assoc]
    · intro c hc
      rcases Finset.mem_insert.1 (show c ∈ insert cursor loop.sent from hc) with rfl | hc
      · exact Nat.le_refl _
      · exact Nat.le_trans (Nat.le_of_lt hnear) (h.ahead c hc)
  | last response' hanswer' hused =>
    rw [hcall] at hanswer'
    cases hanswer'
    -- A page with a next one would have handed out a cursor that is nearer to the end than any sent.
    have hlast : listing.nextCursor neighborPageSize (loop.cursor.getD "") = "" := by
      by_cases hne : listing.nextCursor neighborPageSize (loop.cursor.getD "") = ""
      · exact hne
      · have hnear := listing.acyclic neighborPageSize (loop.cursor.getD "") pageSize_pos hissued hne
        have hmem := hused _ (by rw [hnext]; exact nonEmpty_eq_some.2 ⟨rfl, hne⟩)
        exact absurd (h.ahead _ hmem) (Nat.not_le.2 hnear)
    refine .inr ⟨⟨world, loop.world.calls ++ [query.call unary loop.page loop.world.world]⟩, ?_, hall,
      loop.world.calls, query.call unary loop.page loop.world.world, rfl, ?_⟩
    · rw [h.read, rest_last pageSize_pos hissued hlast, hitems]
    · simp only [PageCall.handedCursor, hcall]
      rw [hnext, hlast]
      rfl

/-- Before its first turn the loop has all of the listing to read. -/
theorem reading_start (listing : Listing) (world : σ) :
    Reading listing { world := ⟨world, []⟩, cursor := none, seenCursors := ∅, neighbors := [] } where
  onPath := .beginning
  read := rfl
  ahead _ hcursor := absurd hcursor (Finset.notMem_empty _)
  served _ hcall := absurd hcall List.not_mem_nil

/-- The loop reads a listing to its end. -/
theorem reads (hserves : listing.Serves query unary) (world : σ) :
    ∃ turns after, pageLoop unary.recording query ⟨world, []⟩ turns = .stopped (.ok listing.entries) after ∧
      HasRead listing after.calls := by
  -- From every state between two turns: the distance to the end is less at each turn.
  have hfrom : ∀ (distance turns : Nat) (loop : PageLoop (Recorded σ)),
      pageLoop unary.recording query ⟨world, []⟩ turns = .running loop → Reading listing loop →
      listing.distance neighborPageSize (loop.cursor.getD "") = distance →
      ∃ turns after, pageLoop unary.recording query ⟨world, []⟩ turns = .stopped (.ok listing.entries) after ∧
        HasRead listing after.calls := by
    intro distance
    induction distance using Nat.strongRecOn with
    | ind distance ih =>
      intro turns loop hstate hreading hdistance
      have hrunning : Running query turns loop := by
        have hholds := holds unary query world turns
        rw [hstate] at hholds
        exact hholds
      have hturn : pageLoop unary.recording query ⟨world, []⟩ (turns + 1) = loop.turn unary.recording query := by
        simp only [pageLoop, hstate]
      obtain ⟨after, ht⟩ := turn_cases unary query loop
      rcases hreading.turn hrunning hserves ht with ⟨loop', heq, hreading', hless⟩ | ⟨after', heq, hread⟩
      · exact ih _ (by rw [← hdistance]; exact hless) (turns + 1) loop' (by rw [hturn, heq]) hreading' rfl
      · exact ⟨turns + 1, after', by rw [hturn, heq], hread⟩
  exact hfrom _ 0 _ rfl (reading_start listing world) rfl

/-- Each page of a listing that has been read was fetched once. -/
theorem HasRead.count {calls : List PageCall} (h : HasRead listing calls) (hpass : Pass query calls) {cursor : String}
    (hpath : listing.OnPath neighborPageSize cursor) : (calls.map PageCall.sentCursor).count (nonEmpty cursor) = 1 := by
  obtain ⟨before, last, rfl, hlast⟩ := h.ended
  refine List.count_eq_one_of_mem hpass.distinct ?_
  induction hpath with
  | beginning =>
    rw [hpass.sent_eq]
    exact List.mem_cons_self ..
  | @next cursor hpath hne ih =>
    obtain ⟨call, hcall, hsent⟩ := List.mem_map.1 ih
    have hhanded := (h.served call hcall).handed
    rw [hsent, getD_nonEmpty] at hhanded
    rw [← hhanded, hpass.sent_eq]
    rcases List.mem_append.1 hcall with hbefore | hmem
    · exact List.mem_cons_of_mem _ (List.mem_map.2 ⟨call, hbefore, rfl⟩)
    · rw [List.mem_singleton.1 hmem, hlast]
      exact List.mem_cons_self ..

end ListingAux

end RociaSdk
