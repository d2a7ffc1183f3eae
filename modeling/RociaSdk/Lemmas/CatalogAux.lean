import RociaSdk.Lemmas.PageAux
import RociaSdk.Lemmas.PaginateAux

/-!
# Walks over the server

A `Paged` is a listing that the client reads from the server in pages, with what its entries are decoded to. `Turn` says what a turn of
a walk over one comes to, whatever others have done to the server before it. A walk that goes on has read pages of the listing
(`reads_of_running`), and where nobody changes the listing every page of it is read (`running_of_reads`).
-/

namespace RociaSdk

namespace Server

namespace CatalogAux

open Paging HostedAux

/-! ## Decoding -/

section Decoding

variable {γ T : Type} {decode : γ → Except String T}

/-- Entries and what they are decoded to. -/
abbrev Decodes (decode : γ → Except String T) : List γ → List T → Prop := List.Forall₂ fun data item => decode data = .ok item

theorem decodeItems_ok_iff {index : Nat} {json : List γ} {items : List T} :
    decodeItems decode index json = .ok items ↔ Decodes decode json items := by
  induction json generalizing index items with
  | nil => simp [decodeItems, eq_comm]
  | cons data rest ih =>
    unfold decodeItems
    cases hdata : decode data with
    | error e => simp [List.forall₂_cons_left_iff, hdata]
    | ok item =>
      cases hrest : decodeItems decode (index + 1) rest with
      | error e =>
        refine ⟨nofun, fun h => ?_⟩
        obtain ⟨_, tail, _, htail, -⟩ := List.forall₂_cons_left_iff.1 h
        rw [ih.2 htail] at hrest
        cases hrest
      | ok tail =>
        have htail := ih.1 hrest
        constructor
        · intro h
          cases h
          exact .cons hdata htail
        · intro h
          obtain ⟨item', tail', hitem, htail', rfl⟩ := List.forall₂_cons_left_iff.1 h
          rw [hdata] at hitem
          cases hitem
          rw [ih.2 htail'] at hrest
          cases hrest
          rfl

/-- The first entry that cannot be decoded is named by its place. -/
theorem decodeItems_error {index : Nat} {front back : List γ} {data : γ} {items : List T} {error : String}
    (hfront : Decodes decode front items) (hdata : decode data = .error error) :
    decodeItems decode index (front ++ data :: back) = .error ("item " ++ toString (index + front.length) ++ ": " ++ error) := by
  induction hfront generalizing index with
  | nil => simp [decodeItems, hdata]
  | @cons first item rest tail hfirst _ ih =>
    have hplace : index + 1 + rest.length = index + (first :: rest).length := by
      rw [List.length_cons]
      omega
    simp only [List.cons_append, decodeItems, hfirst]
    rw [ih, hplace]
    rfl

theorem decodes_append {front back : List γ} {items : List T} (h : Decodes decode (front ++ back) items) :
    ∃ first rest, Decodes decode front first ∧ Decodes decode back rest ∧ items = first ++ rest := by
  induction front generalizing items with
  | nil => exact ⟨[], items, .nil, h, rfl⟩
  | cons data front ih =>
    obtain ⟨item, items, hitem, hitems, rfl⟩ := List.forall₂_cons_left_iff.1 h
    obtain ⟨first, rest, hfirst, hrest, rfl⟩ := ih hitems
    exact ⟨item :: first, rest, .cons hitem hfirst, hrest, rfl⟩

/-- The page of an entry that cannot be decoded: the error names its place on the page. -/
theorem decodeItems_page {size : Nat} (hsize : 0 < size) {listed front back : List (String × γ)} {e : String × γ} {rest : List T}
    {error : String} (hlisted : listed = front ++ e :: back)
    (hrest : Decodes decode ((front.drop (front.length / size * size)).map Prod.snd) rest) (herror : decode e.2 = .error error) :
    decodeItems decode 0 (((listed.drop (front.length / size * size)).take size).map Prod.snd) =
      .error ("item " ++ toString (front.length % size) ++ ": " ++ error) := by
  have hle := Nat.div_mul_le_self front.length size
  have hmod := Nat.mod_lt front.length hsize
  have hplace : (front.drop (front.length / size * size)).length = front.length % size := by
    rw [List.length_drop, Nat.mod_eq_sub_mul_div, Nat.mul_comm]
  -- What is left of the entries before it, and then the entry.
  have hpage : (listed.drop (front.length / size * size)).take size =
      front.drop (front.length / size * size) ++ e :: back.take (size - front.length % size - 1) := by
    rw [hlisted, List.drop_append_of_le_length hle, List.take_append, hplace, List.take_of_length_le (by omega)]
    obtain ⟨left, hleft⟩ : ∃ left, size - front.length % size = left + 1 := ⟨size - front.length % size - 1, by omega⟩
    rw [hleft, List.take_succ_cons, Nat.add_sub_cancel]
  rw [hpage, List.map_append, List.map_cons, decodeItems_error hrest herror, List.length_map, hplace, Nat.zero_add]

theorem decodes_ok {json items : List T} : Decodes .ok json items ↔ items = json := by
  constructor
  · intro h
    induction h with
    | nil => rfl
    | cons hitem _ ih =>
      cases hitem
      rw [ih]
  · rintro rfl
    exact List.forall₂_same.2 fun _ _ => rfl

end Decoding

/-! ## Sources -/

/-- A listing that the client reads from the server in pages. -/
structure Paged (γ β : Type) where
  rpc : String
  entries : Store → List (String × γ)
  decode : γ → Except String β
  context : String
  page : Option UInt32 → Option String → World → Result (Page β) × World

variable {γ β : Type} {paged : Paged γ β} {client : Client} {limit : Option UInt32} {world : World} {turns : Nat}
  {w : Walk β World}

/-- What is listed after a cursor, on one page. -/
def Paged.items (paged : Paged γ β) (limit : Option UInt32) (cursor : Option String) (store : Store) : List (String × γ) :=
  Paging.items (limit.getD defaultPageSize).toNat cursor (paged.entries store)

/-- Where the page after it begins. -/
def Paged.next (paged : Paged γ β) (limit : Option UInt32) (cursor : Option String) (store : Store) : Option String :=
  Paging.next (limit.getD defaultPageSize).toNat cursor (paged.entries store)

/-- A source has its entries in the order of their names, and its pages are read from the server. -/
structure Paged.Lawful (paged : Paged γ β) (client : Client) : Prop where
  sorted : ∀ store, Sorted (paged.entries store)
  zero : ∀ cursor world, ∃ e, paged.page (some 0) cursor world = (.error e, world)
  turnedAway : ∀ limit cursor (world : World), limit ≠ some 0 → ¬world.Admits client paged.rpc →
    ∃ e t, paged.page limit cursor world = (.error e, world.later t)
  unlisted : ∀ limit cursor (world : World), limit ≠ some 0 → cursor ≠ some "" → world.Admits client paged.rpc →
    (∃ k ∈ cursor, k ∉ (paged.entries (world.arrived client paged.rpc).store).map Prod.fst) →
    ∃ e, paged.page limit cursor world = (.error e, world.later (world.arrived client paged.rpc))
  listed : ∀ limit cursor (world : World), limit ≠ some 0 → cursor ≠ some "" → world.Admits client paged.rpc →
    (∀ k ∈ cursor, k ∈ (paged.entries (world.arrived client paged.rpc).store).map Prod.fst) →
    paged.page limit cursor world =
      ((decodeContext paged.context (decodeItems paged.decode 0 ((paged.items limit cursor (world.arrived client paged.rpc).store).map Prod.snd))).map
        fun shown => { items := shown, nextCursor := nonEmpty ((paged.next limit cursor (world.arrived client paged.rpc).store).getD "") },
        world.later (world.arrived client paged.rpc))

/-! ## Any walk -/

section Walks

variable {σ α : Type} {list : Option String → σ → Result (Page α) × σ}

/-- A walk that goes on after a turn was going on before it. -/
theorem running_succ {world : σ} {w : Walk α σ} (h : walk list world (turns + 1) = .running w) :
    ∃ w', walk list world turns = .running w' ∧ w'.turn list = .running w := by
  unfold walk at h
  cases hwalk : walk list world turns with
  | running w' =>
    rw [hwalk] at h
    exact ⟨w', rfl, h⟩
  | stopped result after =>
    rw [hwalk] at h
    cases h

/-- A walk that has stopped has taken a last turn. -/
theorem last_turn {world after : σ} {result : Result (List α)} (h : walk list world turns = .stopped result after) :
    ∃ last < turns, ∃ w, walk list world last = .running w ∧ w.turn list = .stopped result after := by
  induction turns with
  | zero => cases h
  | succ turns ih =>
    unfold walk at h
    cases hwalk : walk list world turns with
    | running w =>
      rw [hwalk] at h
      exact ⟨turns, Nat.lt_succ_self turns, w, hwalk, h⟩
    | stopped result' after' =>
      rw [hwalk] at h
      cases h
      obtain ⟨last, hlast, hturn⟩ := ih hwalk
      exact ⟨last, Nat.lt_succ_of_lt hlast, hturn⟩

/-- A walk that goes on takes its next turn. -/
theorem walk_succ {world : σ} {w : Walk α σ} (h : walk list world turns = .running w) :
    walk list world (turns + 1) = w.turn list := by
  unfold walk
  rw [h]

section

variable {world after : σ} {cursor : Option String} {seen : List α} {page : Page α}

theorem turn_of_error {e : RociaDbError} (h : list cursor world = (.error e, after)) :
    Walk.turn list ⟨world, cursor, seen⟩ = .stopped (.error e) after := by
  unfold Walk.turn
  rw [h]

theorem turn_of_next {k : String} (h : list cursor world = (.ok page, after)) (hnext : page.nextCursor = some k) :
    Walk.turn list ⟨world, cursor, seen⟩ = .running ⟨after, some k, seen ++ page.items⟩ := by
  unfold Walk.turn
  rw [h]
  simp only [hnext]

theorem turn_of_last (h : list cursor world = (.ok page, after)) (hnext : page.nextCursor = none) :
    Walk.turn list ⟨world, cursor, seen⟩ = .stopped (.ok (seen ++ page.items)) after := by
  unfold Walk.turn
  rw [h]
  simp only [hnext]

end

theorem storeAt_running (client : Client) (rpc : String) {list : Option String → World → Result (Page α) × World}
    {w : Walk α World} (h : walk list world turns = .running w) :
    storeAt client rpc list world turns = (w.world.arrived client rpc).store := by
  unfold storeAt
  rw [h]

end Walks

theorem not_lt_empty (name : String) : ¬name < "" := by
  rw [String.lt_iff_toList_lt]
  exact List.not_lt_nil _

/-- A page whose last name is empty is the first one, and holds one entry. -/
theorem next_empty {entries : List (String × γ)} {n : Nat} {key : Option String} (hsorted : Sorted entries) (hn : 0 < n)
    (h : next n key entries = some "") : key = none ∧ n = 1 ∧ "" ∈ entries.map Prod.fst := by
  obtain ⟨hafter, hmem, hitems⟩ := mem_items_of_next hsorted h
  have hkey : key = none := by
    cases key with
    | none => rfl
    | some k => exact absurd ((isAfter_some k "").1 hafter) (not_lt_empty k)
  refine ⟨hkey, ?_, hmem⟩
  subst hkey
  -- A second entry of the page would come after the first, which is the empty name or comes after it.
  have hlong : n < (after none entries).length := by
    unfold next at h
    split at h
    · assumption
    · cases h
  have hpage := hsorted.items n none
  by_contra hne
  match hshape : items n none entries with
  | [] =>
    have hlength := congrArg List.length hshape
    simp only [items, List.length_take, List.length_nil] at hlength
    omega
  | [_] =>
    have hlength := congrArg List.length hshape
    simp only [items, List.length_take, List.length_singleton] at hlength
    omega
  | a :: b :: rest =>
    have hb := (hitems b).1 (by simp [hshape])
    rw [hshape] at hpage
    have hlt := (List.pairwise_cons.1 hpage).1 b (by simp)
    exact not_lt_empty _ (lt_of_lt_of_le hlt hb.2.2)

/-- A limit of one is one. -/
theorem limit_one (h : (limit.getD defaultPageSize).toNat = 1) : limit = some 1 := by
  cases limit with
  | none => exact absurd h (by decide)
  | some limit => exact congrArg some (UInt32.toNat_inj.1 h)

theorem limit_toNat_pos (hlimit : limit ≠ some 0) : 0 < (limit.getD defaultPageSize).toNat :=
  UInt32.lt_iff_toNat_lt.1 (limit_pos hlimit)

/-! ## One turn -/

/-- The page a walk has come to. -/
abbrev pageOf (paged : Paged γ β) (client : Client) (limit : Option UInt32) (w : Walk β World) : List (String × γ) :=
  paged.items limit w.cursor (w.world.arrived client paged.rpc).store

/-- The page a walk has come to is not read from the server. -/
def Fails (paged : Paged γ β) (client : Client) (limit : Option UInt32) (w : Walk β World) : Prop :=
  limit = some 0 ∨ ¬w.world.Admits client paged.rpc ∨
    ∃ k ∈ w.cursor, k ∉ (paged.entries (w.world.arrived client paged.rpc).store).map Prod.fst

/-- What a turn of a walk comes to. -/
inductive Turn (paged : Paged γ β) (client : Client) (limit : Option UInt32) (w : Walk β World) :
    WalkState β World → Prop where
  | failed (e : RociaDbError) (after : World) : Fails paged client limit w →
      Turn paged client limit w (.stopped (.error e) after)
  | garbled (e : String) : ¬Fails paged client limit w →
      decodeItems paged.decode 0 ((pageOf paged client limit w).map Prod.snd) = .error e →
      Turn paged client limit w (.stopped (.error (.decode paged.context e)) (w.world.later (w.world.arrived client paged.rpc)))
  | next (shown : List β) (k : String) : ¬Fails paged client limit w →
      Decodes paged.decode ((pageOf paged client limit w).map Prod.snd) shown →
      paged.next limit w.cursor (w.world.arrived client paged.rpc).store = some k → k ≠ "" →
      Turn paged client limit w
        (.running { world := w.world.later (w.world.arrived client paged.rpc), cursor := some k, seen := w.seen ++ shown })
  | last (shown : List β) : ¬Fails paged client limit w →
      Decodes paged.decode ((pageOf paged client limit w).map Prod.snd) shown →
      (paged.next limit w.cursor (w.world.arrived client paged.rpc).store).getD "" = "" →
      Turn paged client limit w (.stopped (.ok (w.seen ++ shown)) (w.world.later (w.world.arrived client paged.rpc)))

theorem turn_cases (hlawful : paged.Lawful client) (limit : Option UInt32) (hcursor : w.cursor ≠ some "") :
    Turn paged client limit w (w.turn (paged.page limit)) := by
  unfold Walk.turn
  by_cases hlimit : limit = some 0
  · subst hlimit
    obtain ⟨e, hpage⟩ := hlawful.zero w.cursor w.world
    rw [hpage]
    exact .failed _ _ (.inl rfl)
  by_cases hopen : w.world.Admits client paged.rpc
  · by_cases hlisted : ∀ k ∈ w.cursor, k ∈ (paged.entries (w.world.arrived client paged.rpc).store).map Prod.fst
    · have hgoes : ¬Fails paged client limit w := by
        rintro (h | h | ⟨k, hk, hnot⟩)
        · exact hlimit h
        · exact h hopen
        · exact hnot (hlisted k hk)
      rw [hlawful.listed limit w.cursor w.world hlimit hcursor hopen hlisted]
      cases hdecode : decodeItems paged.decode 0 ((pageOf paged client limit w).map Prod.snd) with
      | error e => exact .garbled e hgoes hdecode
      | ok shown =>
        have hshown := decodeItems_ok_iff.1 hdecode
        simp only [decodeContext, Except.map]
        cases hnext : nonEmpty ((paged.next limit w.cursor (w.world.arrived client paged.rpc).store).getD "") with
        | some k =>
          obtain ⟨hk, hne⟩ := PageAux.nonEmpty_eq_some.1 hnext
          refine .next shown k hgoes hshown ?_ hne
          cases hvalue : paged.next limit w.cursor (w.world.arrived client paged.rpc).store with
          | none =>
            rw [hvalue] at hk
            exact absurd hk.symm hne
          | some k' =>
            rw [hvalue] at hk
            exact congrArg some hk
        | none =>
          refine .last shown hgoes hshown ?_
          by_contra hne
          simp [nonEmpty, hne] at hnext
    · have hunlisted : ∃ k ∈ w.cursor, k ∉ (paged.entries (w.world.arrived client paged.rpc).store).map Prod.fst := by
        simpa using hlisted
      obtain ⟨e, hpage⟩ := hlawful.unlisted limit w.cursor w.world hlimit hcursor hopen hunlisted
      rw [hpage]
      exact .failed _ _ (.inr (.inr hunlisted))
  · obtain ⟨e, t, hpage⟩ := hlawful.turnedAway limit w.cursor w.world hlimit hopen
    rw [hpage]
    exact .failed _ _ (.inr (.inl hopen))

/-- A turn comes to a later cursor. -/
theorem turn_after (hlawful : paged.Lawful client) (hcursor : w.cursor ≠ some "") {w' : Walk β World}
    (h : w.turn (paged.page limit) = .running w') : ∃ k, w'.cursor = some k ∧ IsAfter w.cursor k := by
  have hcase := turn_cases hlawful limit hcursor
  rw [h] at hcase
  cases hcase with
  | next shown k _ _ hnext _ => exact ⟨k, rfl, (mem_items_of_next (hlawful.sorted _) hnext).1⟩

/-! ## Walks among others -/

/-- What a walk has read when it goes on: pages of the listing as it was at each turn. -/
theorem reads_of_running (hlawful : paged.Lawful client) (h : walk (paged.page limit) world turns = .running w) :
    w.cursor ≠ some "" ∧ ∃ read, Decodes paged.decode (read.map Prod.snd) w.seen ∧
      Reads (limit.getD defaultPageSize).toNat (fun turn => paged.entries (storeAt client paged.rpc (paged.page limit) world turn)) turns
        w.cursor read := by
  induction turns generalizing w with
  | zero =>
    cases h
    exact ⟨nofun, [], .nil, .start⟩
  | succ turns ih =>
    obtain ⟨w', hrunning, hturn⟩ := running_succ h
    obtain ⟨hcursor, read, hseen, hreads⟩ := ih hrunning
    have hcase := turn_cases hlawful limit hcursor
    rw [hturn] at hcase
    cases hcase with
    | next shown k _ hshown hnext hne =>
      refine ⟨by simpa using hne, read ++ pageOf paged client limit w', ?_, ?_⟩
      · rw [List.map_append]
        exact List.rel_append hseen hshown
      · unfold Paged.next at hnext
        rw [← storeAt_running client paged.rpc hrunning] at hnext
        have hpage := Reads.page hreads hnext
        rwa [storeAt_running client paged.rpc hrunning] at hpage

/-- A turn fails if its page is not read from the server, or if an entry of the page cannot be decoded. -/
theorem turn_error_iff (hlawful : paged.Lawful client) (limit : Option UInt32) (hcursor : w.cursor ≠ some "") :
    (∃ e after, w.turn (paged.page limit) = .stopped (.error e) after) ↔
      Fails paged client limit w ∨ ∃ e ∈ pageOf paged client limit w, ∃ error, paged.decode e.2 = .error error := by
  have hgarbled : (∃ e, decodeItems paged.decode 0 ((pageOf paged client limit w).map Prod.snd) = .error e) ↔
      ∃ e ∈ pageOf paged client limit w, ∃ error, paged.decode e.2 = .error error := by
    generalize pageOf paged client limit w = page
    generalize 0 = index
    induction page generalizing index with
    | nil => simp [decodeItems]
    | cons e rest ih =>
      simp only [List.map_cons, decodeItems, List.mem_cons, exists_eq_or_imp, ← ih (index + 1)]
      cases paged.decode e.2 with
      | error error => simp
      | ok item =>
        cases decodeItems paged.decode (index + 1) (rest.map Prod.snd) with
        | error error => simp [Except.map]
        | ok items => simp [Except.map]
  have hcase := turn_cases hlawful limit hcursor
  generalize w.turn (paged.page limit) = state at hcase
  rw [← hgarbled]
  cases hcase with
  | failed e after hfails => exact ⟨fun _ => .inl hfails, fun _ => ⟨e, after, rfl⟩⟩
  | garbled e _ hdecode => exact ⟨fun _ => .inr ⟨e, hdecode⟩, fun _ => ⟨_, _, rfl⟩⟩
  | next shown k hgoes hshown _ _ =>
    refine ⟨fun ⟨_, _, h⟩ => (nomatch h), ?_⟩
    rintro (hfails | ⟨e, he⟩)
    · exact absurd hfails hgoes
    · rw [decodeItems_ok_iff.2 hshown] at he
      cases he
  | last shown hgoes hshown _ =>
    refine ⟨fun ⟨_, _, h⟩ => (nomatch h), ?_⟩
    rintro (hfails | ⟨e, he⟩)
    · exact absurd hfails hgoes
    · rw [decodeItems_ok_iff.2 hshown] at he
      cases he

/-- What a walk has read when it stops at the end. -/
theorem read_of_stopped (hlawful : paged.Lawful client) (hrunning : walk (paged.page limit) world turns = .running w)
    {seen : List β} {after : World} (hstopped : w.turn (paged.page limit) = .stopped (.ok seen) after)
    (hname : ¬(limit = some 1 ∧ "" ∈ (paged.entries (storeAt client paged.rpc (paged.page limit) world 0)).map Prod.fst)) :
    ∃ read, Decodes paged.decode (read.map Prod.snd) seen ∧ Sorted read ∧
      (∀ e ∈ read, ∃ turn ≤ turns, e ∈ paged.entries (storeAt client paged.rpc (paged.page limit) world turn)) ∧
      ∀ name, (∀ turn ≤ turns, name ∈ (paged.entries (storeAt client paged.rpc (paged.page limit) world turn)).map Prod.fst) →
        name ∈ read.map Prod.fst := by
  obtain ⟨hcursor, read, hseen, hreads⟩ := reads_of_running hlawful hrunning
  have hstore := storeAt_running client paged.rpc hrunning
  have hcase := turn_cases hlawful limit hcursor
  rw [hstopped] at hcase
  cases hcase with
  | last shown hgoes hshown hempty =>
    have hpos := limit_toNat_pos fun h => hgoes (.inl h)
    have hnone : next (limit.getD defaultPageSize).toNat w.cursor (paged.entries (storeAt client paged.rpc (paged.page limit) world turns)) =
        none := by
      rw [hstore]
      cases hsome : paged.next limit w.cursor (w.world.arrived client paged.rpc).store with
      | none => exact hsome
      | some k =>
        rw [hsome] at hempty
        rw [show k = "" from hempty] at hsome
        obtain ⟨hstart, hone, hmem⟩ := next_empty (hlawful.sorted _) hpos hsome
        have hturns : turns = 0 := by
          rw [hstart] at hreads
          cases hreads
          rfl
        refine absurd ⟨limit_one hone, ?_⟩ hname
        rw [← hturns, hstore]
        exact hmem
    obtain ⟨hsorted, hsound, hall⟩ := Reads.last hpos hreads hnone fun i _ => hlawful.sorted _
    refine ⟨_, ?_, hsorted, hsound, hall⟩
    rw [List.map_append, hstore]
    exact List.rel_append hseen hshown

/-! ## With nobody else at work -/

section Alone

variable {header : String} {s : State} {key : Option String}

/-- A page, with nobody else at work. -/
theorem page_alone (hlawful : paged.Lawful client) (hlimit : limit ≠ some 0) (hopen : s.LetsIn paged.rpc (client.authorization header))
    (hkey : ∀ k ∈ key, k ∈ (paged.entries s.store).map Prod.fst) (hcursor : key ≠ some "") :
    paged.page limit key (World.alone header s) =
      ((decodeContext paged.context (decodeItems paged.decode 0 ((paged.items limit key s.store).map Prod.snd))).map
        fun shown => { items := shown, nextCursor := nonEmpty ((paged.next limit key s.store).getD "") }, World.alone header s) := by
  obtain ⟨hadmits, harrived⟩ := alone_let_in hopen
  have hpage := hlawful.listed limit key (World.alone header s) hlimit hcursor hadmits (by rwa [harrived])
  rwa [harrived] at hpage

variable {shown : List β} {k : String}

/-- A page that is followed by another. -/
theorem turn_next (hlawful : paged.Lawful client) (hlimit : limit ≠ some 0) (hopen : s.LetsIn paged.rpc (client.authorization header))
    (hkey : ∀ k ∈ key, k ∈ (paged.entries s.store).map Prod.fst) (hcursor : key ≠ some "") (seen : List β)
    (hshown : Decodes paged.decode ((paged.items limit key s.store).map Prod.snd) shown)
    (hnext : paged.next limit key s.store = some k) (hne : k ≠ "") :
    Walk.turn (paged.page limit) ⟨World.alone header s, key, seen⟩ =
      .running { world := World.alone header s, cursor := some k, seen := seen ++ shown } := by
  have hpage := page_alone hlawful hlimit hopen hkey hcursor
  rw [decodeItems_ok_iff.2 hshown, hnext] at hpage
  exact turn_of_next hpage (by simp [nonEmpty, hne])

/-- The last page. -/
theorem turn_last (hlawful : paged.Lawful client) (hlimit : limit ≠ some 0) (hopen : s.LetsIn paged.rpc (client.authorization header))
    (hkey : ∀ k ∈ key, k ∈ (paged.entries s.store).map Prod.fst) (hcursor : key ≠ some "") (seen : List β)
    (hshown : Decodes paged.decode ((paged.items limit key s.store).map Prod.snd) shown)
    (hempty : (paged.next limit key s.store).getD "" = "") :
    Walk.turn (paged.page limit) ⟨World.alone header s, key, seen⟩ = .stopped (.ok (seen ++ shown)) (World.alone header s) := by
  have hpage := page_alone hlawful hlimit hopen hkey hcursor
  rw [decodeItems_ok_iff.2 hshown, hempty] at hpage
  exact turn_of_last hpage (by simp [nonEmpty])

/-- A page with an entry that cannot be decoded. -/
theorem turn_garbled (hlawful : paged.Lawful client) (hlimit : limit ≠ some 0)
    (hopen : s.LetsIn paged.rpc (client.authorization header)) (hkey : ∀ k ∈ key, k ∈ (paged.entries s.store).map Prod.fst)
    (hcursor : key ≠ some "") (seen : List β) {e : String}
    (hdecode : decodeItems paged.decode 0 ((paged.items limit key s.store).map Prod.snd) = .error e) :
    Walk.turn (paged.page limit) ⟨World.alone header s, key, seen⟩ = .stopped (.error (.decode paged.context e)) (World.alone header s) := by
  have hpage := page_alone hlawful hlimit hopen hkey hcursor
  rw [hdecode] at hpage
  exact turn_of_error hpage

/-- The pages of a listing that nobody changes are read, as long as their entries can be decoded. -/
theorem running_of_reads (hlawful : paged.Lawful client) (hlimit : limit ≠ some 0)
    (hopen : s.LetsIn paged.rpc (client.authorization header)) (hname : ¬(limit = some 1 ∧ "" ∈ (paged.entries s.store).map Prod.fst))
    {read : List (String × γ)} {seen : List β}
    (h : Reads (limit.getD defaultPageSize).toNat (fun _ => paged.entries s.store) turns key read)
    (hseen : Decodes paged.decode (read.map Prod.snd) seen) :
    walk (paged.page limit) (World.alone header s) turns = .running { world := World.alone header s, cursor := key, seen := seen } ∧
      key ≠ some "" ∧ ∀ k ∈ key, k ∈ (paged.entries s.store).map Prod.fst := by
  induction h generalizing seen with
  | start =>
    cases hseen
    exact ⟨rfl, nofun, nofun⟩
  | @page turns key read k hreads hnext ih =>
    rw [List.map_append] at hseen
    obtain ⟨before, shown, hbefore, hshown, rfl⟩ := decodes_append hseen
    obtain ⟨hrunning, hcursor, hkey⟩ := ih hbefore
    have hne : k ≠ "" := by
      rintro rfl
      obtain ⟨-, hone, hmem⟩ := next_empty (hlawful.sorted _) (limit_toNat_pos hlimit) hnext
      exact hname ⟨limit_one hone, hmem⟩
    refine ⟨?_, by simpa using hne, fun k' hk' => ?_⟩
    · rw [walk_succ hrunning]
      exact turn_next hlawful hlimit hopen hkey hcursor before hshown hnext hne
    · cases hk'
      exact (mem_items_of_next (hlawful.sorted _) hnext).2.1

end Alone

/-! ## What the client lists -/

section Sources

variable {α T : Type} (debug : String → String) (client : Client)

/-- A catalog as a source: nothing is decoded. -/
def catalogPaged (catalog : Catalog α) : Paged α α where
  rpc := catalog.rpc
  entries := catalog.entries
  decode := .ok
  context := ""
  page := catalog.page debug client

theorem catalogPaged_lawful (catalog : Catalog α) : (catalogPaged debug client catalog).Lawful client where
  sorted := sorted_entries catalog
  zero cursor world := by
    cases catalog <;> exact ⟨_, rfl⟩
  turnedAway limit cursor world hlimit hopen := by
    obtain ⟨e, t, hpage⟩ := page_turned_away catalog debug hlimit cursor hopen
    exact ⟨_, t, hpage⟩
  unlisted limit cursor world hlimit hcursor hopen hunlisted := by
    have hpage := page_let_in catalog debug hlimit hcursor hopen
    dsimp only at hpage
    have hnot : ¬∀ k ∈ cursor, k ∈ (catalog.entries (world.arrived client catalog.rpc).store).map Prod.fst := fun hlisted =>
      hunlisted.elim fun k h => h.2 (hlisted k h.1)
    rw [if_neg hnot] at hpage
    exact ⟨_, hpage⟩
  listed limit cursor world hlimit hcursor hopen hlisted := by
    have hpage := page_let_in catalog debug hlimit hcursor hopen
    dsimp only at hpage
    rw [if_pos (show ∀ k ∈ cursor, k ∈ (catalog.entries (world.arrived client catalog.rpc).store).map Prod.fst from hlisted)] at hpage
    show catalog.page debug client limit cursor world = _
    rw [hpage, decodeItems_ok_iff.2 (show Decodes (catalogPaged debug client catalog).decode _ _ from decodes_ok.2 rfl)]
    rfl

/-- The documents of a collection as a paged. -/
def documentsPaged (decode : List UInt8 → Except String T) (tenantId collection : String) : Paged (List UInt8) T where
  rpc := "ListDoc"
  entries := documentEntries tenantId collection
  decode := decode
  context := "listed documents"
  page := documentsPage debug client decode tenantId collection

section Documents

variable {client : Client} (decode : List UInt8 → Except String T) (tenantId collection : String)
  {limit : Option UInt32} {cursor : Option String} {world : World}

/-- The request for a page of documents. -/
def documentsRequest (tenantId collection : String) (limit : Option UInt32) (cursor : Option String) : ListDocRequest :=
  { tenantId := tenantId, collection := collection,
    page := some { limit := some (limit.getD defaultPageSize), cursor := cursor.getD "" } }

/-- What the client makes of the answer. -/
def documentsOf (decode : List UInt8 → Except String T) (response : DocumentsResponse) : Result (DocumentPage T) :=
  (decodeContext "listed documents" (decodeDocumentPage decode response.json response.page)).map fun (items, nextCursor) =>
    { items := items, nextCursor := nextCursor, totalCount := response.totalCount }

/-- A listing of documents is a read. -/
theorem documentsPage_eq (hlimit : limit ≠ some 0) {page : Result (DocumentPage T)} {after : World}
    (h : readDecoded (hosted client (State.listDoc debug)) "failed to list documents"
      (documentsRequest tenantId collection limit cursor) (documentsOf decode) world = (page, after)) :
    documentsPage debug client decode tenantId collection limit cursor world = (page.map DocumentPage.toPage, after) := by
  have hlist : RociaSdk.listDocuments (hosted client (State.listDoc debug)) decode tenantId collection limit cursor world =
      (page, after) := by
    rw [← h]
    unfold RociaSdk.listDocuments pageRequest
    rw [if_neg hlimit]
    rfl
  unfold documentsPage
  rw [hlist]

theorem listDoc_reads (limit : Option UInt32) (cursor : Option String) :
    Reads (State.listDoc debug) (documentsRequest tenantId collection limit cursor) "ListDoc" fun store =>
      (paginate debug (documentEntries tenantId collection store)
        (some { limit := some (limit.getD defaultPageSize), cursor := cursor.getD "" })).map fun (json, nextCursor) =>
          { json := json, page := some { nextCursor := nextCursor },
            totalCount := UInt64.ofNat (documentEntries tenantId collection store).length } where
  eq _ := rfl
  plain _ := Plain.map (plain_paginate _ _ _) _

/-- A page of documents that is not let in is an error. -/
theorem documents_turned_away (hlimit : limit ≠ some 0) (hopen : ¬world.Admits client "ListDoc") :
    ∃ e t, documentsPage debug client decode tenantId collection limit cursor world = (.error e, world.later t) := by
  obtain ⟨e, t, hread⟩ := read_turned_away "failed to list documents"
    (listDoc_reads debug tenantId collection limit cursor) (documentsOf decode) hopen
  exact ⟨_, t, documentsPage_eq debug decode tenantId collection hlimit hread⟩

/-- A page of documents that is let in holds those after its cursor, if the cursor is listed and they can all be decoded. -/
theorem documents_let_in (hlimit : limit ≠ some 0) (hcursor : cursor ≠ some "")
    (hopen : world.Admits client "ListDoc") :
    let entries := documentEntries tenantId collection (world.arrived client "ListDoc").store
    documentsPage debug client decode tenantId collection limit cursor world =
      (if ∀ k ∈ cursor, k ∈ entries.map Prod.fst then
        (decodeContext "listed documents"
          (decodeItems decode 0 ((items (limit.getD defaultPageSize).toNat cursor entries).map Prod.snd))).map fun shown =>
            { items := shown, nextCursor := nonEmpty ((next (limit.getD defaultPageSize).toNat cursor entries).getD "") }
      else .error (.status "failed to list documents" (invalidArgument ("unknown page cursor " ++ debug (cursor.getD "")))),
        world.later (world.arrived client "ListDoc")) := by
  intro entries
  have hread := read_let_in "failed to list documents"
    (listDoc_reads debug tenantId collection limit cursor) (documentsOf decode) hopen
  rw [documentsPage_eq debug decode tenantId collection hlimit hread]
  refine Prod.ext ?_ rfl
  have hpaginate := paginate_eq debug (show Sorted entries from sorted_rows _) (limit_pos hlimit) hcursor
  rw [hpaginate]
  split
  · simp only [Except.map, statusContext, Except.bind, documentsOf, decodeDocumentPage]
    cases decodeItems decode 0 _ <;> rfl
  · rfl

end Documents

theorem documentsPaged_lawful (decode : List UInt8 → Except String T) (tenantId collection : String) :
    (documentsPaged debug client decode tenantId collection).Lawful client where
  sorted store := sorted_rows _
  zero cursor world := ⟨_, rfl⟩
  turnedAway limit cursor world hlimit hopen := documents_turned_away debug decode tenantId collection hlimit hopen
  unlisted limit cursor world hlimit hcursor hopen hunlisted := by
    have hpage := documents_let_in debug decode tenantId collection hlimit hcursor hopen
    have hnot : ¬∀ k ∈ cursor, k ∈ (documentEntries tenantId collection (world.arrived client "ListDoc").store).map Prod.fst := fun hlisted =>
      hunlisted.elim fun k h => h.2 (hlisted k h.1)
    dsimp only at hpage
    rw [if_neg hnot] at hpage
    exact ⟨_, hpage⟩
  listed limit cursor world hlimit hcursor hopen hlisted := by
    have hpage := documents_let_in debug decode tenantId collection hlimit hcursor hopen
    dsimp only at hpage
    rwa [if_pos (show ∀ k ∈ cursor, k ∈ (documentEntries tenantId collection (world.arrived client "ListDoc").store).map Prod.fst from hlisted)] at hpage

end Sources

end CatalogAux

end Server

end RociaSdk
