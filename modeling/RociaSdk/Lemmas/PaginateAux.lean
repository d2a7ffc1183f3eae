import RociaSdk.Lemmas.HostedAux
import RociaSdk.Lib.Paging

/-!
# What a page comes to

A page that is let in holds the entries after its cursor, and the name of the last of them is the cursor of the next one.
-/

namespace RociaSdk

namespace Server

namespace HostedAux

open Paging

variable {Req α : Type} {client : Client} {world : World}

/-! ## One page -/

variable {entries : List (String × α)} {key : Option String} {limit : UInt32}

/-- The page from a place in the listing on, for a key that nothing up to there comes after. -/
theorem page_from (key : Option String) {start : Nat} (hlimit : 0 < limit.toNat) (hstart : start ≤ entries.length)
    (hafter : after key entries = entries.drop start) :
    let stop := min (start + limit.toNat) entries.length
    ((entries.drop start).take (stop - start), if stop < entries.length then ((entries[stop - 1]?).map Prod.fst).getD "" else "") =
      (items limit.toNat key entries, (next limit.toNat key entries).getD "") := by
  intro stop
  have hitems : (entries.drop start).take (stop - start) = items limit.toNat key entries := by
    rw [items, hafter, List.take_eq_take_iff, List.length_drop]
    omega
  refine Prod.ext hitems ?_
  show (if stop < entries.length then ((entries[stop - 1]?).map Prod.fst).getD "" else "") = _
  unfold next
  rw [hafter, List.length_drop]
  by_cases hmore : limit.toNat < entries.length - start
  · have hstop : stop = start + limit.toNat := by omega
    have hlength : (items limit.toNat key entries).length = limit.toNat := by
      rw [items, hafter, List.length_take, List.length_drop]
      omega
    have hlast : (items limit.toNat key entries).getLast? = entries[stop - 1]? := by
      rw [List.getLast?_eq_getElem?, hlength, items, hafter, List.getElem?_take_of_lt (by omega), List.getElem?_drop, hstop]
      congr 1
      omega
    rw [if_pos (by omega), if_pos hmore, hlast]
  · rw [if_neg (by omega), if_neg hmore]
    rfl

/-- The name of an entry stands at one place. -/
theorem findIdx?_name (hsorted : Sorted entries) {front back : List (String × α)} {e : String × α}
    (h : entries = front ++ e :: back) : entries.findIdx? (fun entry => entry.1 = e.1) = some front.length := by
  subst h
  obtain ⟨-, -, hcross⟩ := List.pairwise_append.1 hsorted
  rw [List.findIdx?_append, List.findIdx?_eq_none_iff.2]
  · simp [List.findIdx?_cons]
  · intro e' he'
    simpa using (hcross e' he' e (by simp)).ne

/-- `paginate` gives the page after a cursor that is listed, or at the beginning. -/
theorem paginate_eq (debug : String → String) (hsorted : Sorted entries) (hlimit : 0 < limit) (hkey : key ≠ some "") :
    paginate debug entries (some { limit := some limit, cursor := key.getD "" }) =
      if ∀ k ∈ key, k ∈ entries.map Prod.fst then
        .ok ((items limit.toNat key entries).map Prod.snd, (next limit.toNat key entries).getD "")
      else .error (invalidArgument ("unknown page cursor " ++ debug (key.getD ""))) := by
  have hpos : 0 < limit.toNat := UInt32.lt_iff_toNat_lt.1 hlimit
  have hne : limit ≠ 0 := UInt32.pos_iff_ne_zero.1 hlimit
  unfold paginate
  simp only [Option.bind_some, Option.getD_some, Option.map_some, if_neg hne]
  cases key with
  | none =>
    have hpage := page_from none hpos (Nat.zero_le entries.length) (by simp)
    simp only [Prod.mk.injEq] at hpage
    simp only [Option.getD_none, if_true, Option.mem_def, reduceCtorEq, false_implies, implies_true]
    rw [hpage.1, hpage.2]
  | some k =>
    have hk : k ≠ "" := fun h => hkey (congrArg some h)
    simp only [Option.getD_some, if_neg hk, Option.mem_def, Option.some.injEq, forall_eq']
    by_cases hlisted : k ∈ entries.map Prod.fst
    · obtain ⟨e, he, rfl⟩ := List.mem_map.1 hlisted
      obtain ⟨front, back, hsplit⟩ := List.append_of_mem he
      have hafter : after (some e.1) entries = entries.drop (front.length + 1) := by
        rw [hsplit] at hsorted
        rw [hsplit, after_of_split hsorted]
        simp
      have hlength : front.length + 1 ≤ entries.length := by
        rw [hsplit, List.length_append, List.length_cons]
        omega
      have hpage := page_from (some e.1) hpos hlength hafter
      simp only [Prod.mk.injEq] at hpage
      rw [if_pos hlisted, findIdx?_name hsorted hsplit, Option.map_some]
      dsimp only
      rw [hpage.1, hpage.2]
    · have hnone : entries.findIdx? (fun entry => entry.1 = k) = none := by
        rw [List.findIdx?_eq_none_iff]
        intro e he
        simpa using fun heq : e.1 = k => hlisted (heq ▸ List.mem_map_of_mem he)
      rw [if_neg hlisted, hnone]
      rfl

/-- `paginate` fails only for the request. -/
theorem plain_paginate (debug : String → String) (entries : List (String × α)) (page : Option PageRequest) :
    Plain (paginate debug entries page) := by
  unfold paginate
  dsimp only
  split
  · exact plain_error (by decide) rfl
  · split
    · exact plain_error (by simp [invalidArgument, status]) rfl
    · exact plain_ok _

/-! ## The entries of listings -/

/-- The scopes of a tenant, in the order of their names. -/
theorem sorted_scopes {γ : Type} (t : Std.ExtTreeMap (String × String) γ (@compare _ lexOrd)) (tenantId : String)
    (p : (String × String) × γ → Bool) (f : (String × String) × γ → α) :
    Sorted ((t.toList.filter fun e => e.1.1 = tenantId && p e).map fun e => (e.1.2, f e)) := by
  refine List.pairwise_map.2 (List.pairwise_filter.2 (Std.ExtTreeMap.ordered_keys_toList.imp ?_))
  intro a b hlt ha hb
  simp only [Bool.and_eq_true, decide_eq_true_eq] at ha hb
  have hcompare : (compare a.1.1 b.1.1).then (compare a.1.2 b.1.2) = .lt := hlt
  rw [ha.1, hb.1, (Std.ReflCmp.compare_self : compare tenantId tenantId = .eq)] at hcompare
  exact compare_lt_iff_lt.1 hcompare

theorem sorted_rows {γ : Type} (t : Std.ExtTreeMap String γ compare) : Sorted t.toList :=
  Std.ExtTreeMap.ordered_keys_toList.imp fun h => compare_lt_iff_lt.1 h

theorem sorted_names {γ : Type} (t : Std.ExtTreeMap String γ compare) : Sorted (t.keys.map fun id => (id, id)) :=
  List.pairwise_map.2 ((Std.ExtTreeMap.ordered_keys (t := t)).imp fun h => compare_lt_iff_lt.1 h)

theorem sorted_set (t : Std.ExtTreeSet String) : Sorted (t.toList.map fun name => (name, name)) :=
  List.pairwise_map.2 ((Std.ExtTreeSet.ordered_toList (t := t)).imp fun h => compare_lt_iff_lt.1 h)

/-- What a catalog lists is in the order of its names. -/
theorem sorted_entries (catalog : Catalog α) (store : Store) : Sorted (catalog.entries store) := by
  cases catalog with
  | collections tenantId => exact sorted_scopes _ tenantId _ _
  | graphs tenantId => exact sorted_scopes _ tenantId _ _
  | buckets tenantId => exact sorted_scopes _ tenantId _ _
  | nodes tenantId graph => exact sorted_names _
  | files tenantId bucket => exact sorted_names _
  | tenants => exact sorted_set _

/-! ## Pages of listings -/

/-- A listing of names sends its request, and hands out what is answered. -/
theorem listPage_eq {σ : Type} {operation : String} {unary : Unary σ Req (ListingResponse α)} {request : Option PageRequest → Req}
    {limit : Option UInt32} (hlimit : limit ≠ some 0) (cursor : Option String) (world : σ) :
    listPage unary operation request limit cursor world =
      readDecoded unary operation (request (some { limit := some (limit.getD defaultPageSize), cursor := cursor.getD "" }))
        (fun response => .ok { items := response.items, nextCursor := nextCursorOf response.page }) world := by
  unfold listPage pageRequest
  rw [if_neg hlimit]

/-- A catalog's page is a read of its entries. -/
theorem page_eq (catalog : Catalog α) (debug : String → String) (client : Client) {limit : Option UInt32}
    (hlimit : limit ≠ some 0) (cursor : Option String) (world : World) :
    ∃ (Req : Type) (handler : Option String → Req → State → Except Status (ListingResponse α) × State) (request : Req),
      Reads handler request catalog.rpc (fun store => listing debug (catalog.entries store)
        (some { limit := some (limit.getD defaultPageSize), cursor := cursor.getD "" })) ∧
      catalog.page debug client limit cursor world = readDecoded (hosted client handler) catalog.operation request
        (fun response => .ok { items := response.items, nextCursor := nextCursorOf response.page }) world := by
  cases catalog <;> refine ⟨_, _, _, ?_, listPage_eq hlimit cursor world⟩
  all_goals exact ⟨fun _ => rfl, fun _ => Plain.map (plain_paginate _ _ _) _⟩

theorem limit_pos {limit : Option UInt32} (hlimit : limit ≠ some 0) : 0 < limit.getD defaultPageSize := by
  cases limit with
  | none => decide
  | some limit => exact UInt32.pos_iff_ne_zero.2 fun h => hlimit (congrArg some h)

/-- A page of a catalog that is let in holds the entries after its cursor, if the cursor is listed. -/
theorem page_let_in (catalog : Catalog α) (debug : String → String) {limit : Option UInt32} (hlimit : limit ≠ some 0)
    {cursor : Option String} (hcursor : cursor ≠ some "") (h : world.Admits client catalog.rpc) :
    let entries := catalog.entries (world.arrived client catalog.rpc).store
    catalog.page debug client limit cursor world =
      (if ∀ k ∈ cursor, k ∈ entries.map Prod.fst then
        .ok {
          items := (items (limit.getD defaultPageSize).toNat cursor entries).map Prod.snd
          nextCursor := nonEmpty ((next (limit.getD defaultPageSize).toNat cursor entries).getD "") }
      else .error (.status catalog.operation (invalidArgument ("unknown page cursor " ++ debug (cursor.getD "")))),
        world.later (world.arrived client catalog.rpc)) := by
  obtain ⟨_, handler, request, hhandler, hpage⟩ := page_eq catalog debug client hlimit cursor world
  intro entries
  rw [hpage, read_let_in catalog.operation hhandler _ h, listing, paginate_eq debug (sorted_entries catalog _) (limit_pos hlimit) hcursor]
  split <;> rfl

/-- A page of a catalog that is not let in is an error. -/
theorem page_turned_away (catalog : Catalog α) (debug : String → String) {limit : Option UInt32} (hlimit : limit ≠ some 0)
    (cursor : Option String) (h : ¬world.Admits client catalog.rpc) :
    ∃ e t, catalog.page debug client limit cursor world = (.error (.status catalog.operation e), world.later t) := by
  obtain ⟨_, handler, request, hhandler, hpage⟩ := page_eq catalog debug client hlimit cursor world
  rw [hpage]
  exact read_turned_away catalog.operation hhandler _ h

end HostedAux

end Server

end RociaSdk
