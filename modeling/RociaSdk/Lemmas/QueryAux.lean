import RociaSdk.Lemmas.CatalogAux
import RociaSdk.Lemmas.JsonAux
import RociaSdk.Lib.Buffered
import RociaSdk.Queries

/-!
# Queries at the server

A filter that the client sends is evaluated without an error, and holds as it is meant (`DocumentQueryFilter.Holds`). So a query keeps
the documents that pass all its filters, and sorts them by its sort list and then by their ids (`queried`).
-/

namespace RociaSdk

variable {N : Type}

/-- A value of the client, as the server reads it. -/
def SerdeJson.received (json : SerdeJson N) (value : Value N) : Value N :=
  match json.toVec value with
  | .ok payload => json.asObject payload
  | .error _ => .null

/-- A string contains another one, whatever the case of their letters; an array contains its items. -/
def Value.Contains (numbers : Numbers N) (lowercase : String → String) : Value N → Value N → Prop
  | .string haystack, .string needle => (lowercase needle).toList <:+: (lowercase haystack).toList
  | .array items, needle => ∃ item ∈ items, item.eq numbers needle = true
  | _, _ => False

/-- A document passes a filter. -/
def DocumentQueryFilter.Holds (json : SerdeJson N) (lowercase : String → String) (filter : DocumentQueryFilter N)
    (document : Value N) : Prop :=
  match filter.operator with
  | .eq => ∃ value ∈ filter.values.head?, (json.received value).eq json.toNumbers (document.fieldOf filter.field) = true
  | .isIn => ∃ value ∈ filter.values, (json.received value).eq json.toNumbers (document.fieldOf filter.field) = true
  | .contains => ∃ value ∈ filter.values.head?,
      (document.fieldOf filter.field).Contains json.toNumbers lowercase (json.received value)

/-- How a sort of the client compares two documents. -/
def DocumentQuerySort.ordering (json : SerdeJson N) (sort : DocumentQuerySort) (left right : String × List UInt8) : Ordering :=
  let ordering := Value.compareJson json.toNumbers ((json.asObject left.2).fieldOf sort.field)
    ((json.asObject right.2).fieldOf sort.field)
  match sort.direction with
  | .asc => ordering
  | .desc => ordering.swap

/-- A document is listed before another one: by the first sort that tells them apart, or else by its id. -/
def ComesBefore (json : SerdeJson N) : List DocumentQuerySort → String × List UInt8 → String × List UInt8 → Prop
  | [], left, right => left.1 < right.1
  | sort :: rest, left, right =>
    sort.ordering json left right = .lt ∨ sort.ordering json left right = .eq ∧ ComesBefore json rest left right

namespace Server

namespace QueryAux

open Buffering CatalogAux HostedAux JsonAux Paging

variable {json : SerdeJson N} {filters : List (DocumentQueryFilter N)} {sent : List QueryFilter}
  {entries kept : List (String × List UInt8)}

/-! ## Filters -/

/-- A filter that is sent. -/
structure Sends (json : SerdeJson N) (filter : DocumentQueryFilter N) (sent : QueryFilter) : Prop where
  field : sent.field = filter.field
  operator : sent.operator = filter.operator.asProto
  values : sent.valuesJson.map json.asObject = filter.values.map json.received

theorem received_of_toVec {values : List (Value N)} {payloads : List (List UInt8)} (h : values.mapM json.toVec = .ok payloads) :
    payloads.map json.asObject = values.map json.received := by
  have hall : List.Forall₂ (fun value payload => json.toVec value = .ok payload) values payloads := Buffered.mapM_ok_iff.1 h
  clear h
  induction hall with
  | nil => rfl
  | cons hvalue _ ih =>
    rw [List.map_cons, List.map_cons, ih]
    simp [SerdeJson.received, hvalue]

/-- The filters that are sent are those of the client. -/
theorem sends_of_build (h : buildQueryFilters json filters = .ok sent) : List.Forall₂ (Sends json) filters sent := by
  refine (Buffered.mapM_ok_iff.1 h).imp fun filter request hrequest => ?_
  cases hvalues : filter.values.mapM json.toVec with
  | error e =>
    rw [hvalues] at hrequest
    cases hrequest
  | ok payloads =>
    rw [hvalues] at hrequest
    cases hrequest
    exact ⟨rfl, rfl, received_of_toVec hvalues⟩

/-- A filter of the client is evaluated, and holds as it is meant. -/
theorem matchesFilter_eq {filter : DocumentQueryFilter N} {request : QueryFilter} (h : Sends json filter request)
    (lowercase : String → String) (document : Value N) :
    ∃ keep, matchesFilter json lowercase document request = .ok keep ∧ (keep = true ↔ filter.Holds json lowercase document) := by
  unfold matchesFilter
  rw [h.operator, h.field, h.values]
  cases hoperator : filter.operator with
  | eq =>
    refine ⟨_, rfl, ?_⟩
    simp only [DocumentQueryFilter.Holds, hoperator, List.head?_map, Option.any_map, Option.any_eq_true]
    rfl
  | isIn =>
    refine ⟨_, rfl, ?_⟩
    simp [DocumentQueryFilter.Holds, hoperator]
  | contains =>
    refine ⟨_, rfl, ?_⟩
    simp only [DocumentQueryFilter.Holds, hoperator, List.head?_map]
    cases filter.values.head? with
    | none =>
      cases document.fieldOf filter.field <;> simp
    | some value =>
      simp only [Option.map_some, Option.mem_def, Option.some.injEq, exists_eq_left']
      cases document.fieldOf filter.field <;> cases json.received value <;> simp [Value.Contains]

/-- All filters are evaluated together. -/
theorem keeps_eq (h : List.Forall₂ (Sends json) filters sent) (lowercase : String → String) (document : Value N) :
    ∃ keep, keeps json lowercase document sent = .ok keep ∧
      (keep = true ↔ ∀ filter ∈ filters, filter.Holds json lowercase document) := by
  induction h with
  | nil => exact ⟨true, rfl, by simp⟩
  | @cons filter request filters sent hfilter _ ih =>
    obtain ⟨keep, hkeep, hholds⟩ := ih
    obtain ⟨first, hfirst, hfirstHolds⟩ := matchesFilter_eq hfilter lowercase document
    unfold keeps
    rw [hfirst]
    cases first with
    | false => exact ⟨false, rfl, by simp [← hfirstHolds]⟩
    | true => exact ⟨keep, hkeep, by simp [← hfirstHolds, hholds]⟩

/-- The documents that are kept are those that pass all filters. -/
theorem matching_eq (h : List.Forall₂ (Sends json) filters sent) (lowercase : String → String) (entries : List (String × List UInt8)) :
    ∃ kept, matching json lowercase sent entries = .ok kept ∧ kept.Sublist entries ∧
      ∀ e, e ∈ kept ↔ e ∈ entries ∧ ∀ filter ∈ filters, filter.Holds json lowercase (json.asObject e.2) := by
  induction entries with
  | nil => exact ⟨[], rfl, List.Sublist.refl [], by simp⟩
  | cons first rest ih =>
    obtain ⟨kept, hkept, hsublist, hmem⟩ := ih
    obtain ⟨keep, hkeep, hholds⟩ := keeps_eq h lowercase (json.asObject first.2)
    unfold matching
    rw [hkeep, hkept]
    cases keep with
    | false =>
      refine ⟨kept, rfl, hsublist.cons first, fun e => ?_⟩
      have hnot : ¬∀ filter ∈ filters, filter.Holds json lowercase (json.asObject first.2) := by simp [← hholds]
      rw [hmem, List.mem_cons]
      constructor
      · exact fun he => ⟨.inr he.1, he.2⟩
      · rintro ⟨rfl | he, hall⟩
        · exact absurd hall hnot
        · exact ⟨he, hall⟩
    | true =>
      refine ⟨first :: kept, rfl, hsublist.cons_cons first, fun e => ?_⟩
      rw [List.mem_cons, List.mem_cons, hmem]
      constructor
      · rintro (rfl | he)
        · exact ⟨.inl rfl, hholds.1 rfl⟩
        · exact ⟨.inr he.1, he.2⟩
      · rintro ⟨rfl | he, hall⟩
        · exact .inl rfl
        · exact .inr ⟨he, hall⟩

/-! ## Sorts -/

/-- A sort, as it is sent. -/
abbrev sentSort (sort : DocumentQuerySort) : QuerySort := { field := sort.field, direction := sort.direction.asProto }

theorem sortOrdering_eq (json : SerdeJson N) (sort : DocumentQuerySort) : sortOrdering json (sentSort sort) = sort.ordering json := by
  funext left right
  obtain ⟨field, direction⟩ := sort
  have hne : sortDirectionAsc ≠ sortDirectionDesc := by decide
  cases direction <;> simp [sortOrdering, DocumentQuerySort.ordering, DocumentQuerySortDirection.asProto, hne]

instance transCmp_ordering (json : SerdeJson N) (sort : DocumentQuerySort) : Std.TransCmp (sort.ordering json) := by
  have hasc : Std.TransCmp fun left right : String × List UInt8 => Value.compareJson json.toNumbers
      ((json.asObject left.2).fieldOf sort.field) ((json.asObject right.2).fieldOf sort.field) :=
    Sorting.transCmp_on fun entry : String × List UInt8 => (json.asObject entry.2).fieldOf sort.field
  unfold DocumentQuerySort.ordering
  cases sort.direction with
  | asc => exact hasc
  | desc =>
    have hswap : ∀ a b, (Value.compareJson json.toNumbers a b).swap = Value.compareJson json.toNumbers b a := fun a b =>
      Std.OrientedCmp.eq_swap.symm
    simp only [hswap]
    exact Std.TransCmp.opposite

/-- Documents with different ids are in order. -/
theorem comesBefore_of_isLE {sort : List DocumentQuerySort} {left right : String × List UInt8} (hne : left.1 ≠ right.1)
    (h : (Sorting.lexicographic (sort.map (DocumentQuerySort.ordering json)) (fun a b => compare a.1 b.1) left right).isLE = true) :
    ComesBefore json sort left right := by
  induction sort with
  | nil =>
    rcases Ordering.isLE_iff_eq_lt_or_eq_eq.1 h with hlt | heq
    · exact compare_lt_iff_lt.1 hlt
    · exact absurd (compare_eq_iff_eq.1 heq) hne
  | cons first rest ih =>
    rcases Ordering.isLE_then_iff_or.1 h with hlt | ⟨heq, hrest⟩
    · exact .inl hlt
    · exact .inr ⟨heq, ih hrest⟩

/-- What a query lists: the documents that pass its filters, in the order of its sort list and then of their ids. -/
theorem queried (h : List.Forall₂ (Sends json) filters sent) (lowercase : String → String) (sort : List DocumentQuerySort)
    (hsorted : Sorted entries) :
    ∃ listed, (matching json lowercase sent entries).map (Sorting.sortAll ((sort.map sentSort).map (sortOrdering json))) = .ok listed ∧
      (∀ e, e ∈ listed ↔ e ∈ entries ∧ ∀ filter ∈ filters, filter.Holds json lowercase (json.asObject e.2)) ∧
      listed.Pairwise (ComesBefore json sort) ∧ (listed.map Prod.fst).Nodup := by
  obtain ⟨kept, hkept, hsublist, hmem⟩ := matching_eq h lowercase entries
  have hordered : Sorted kept := hsorted.sublist hsublist
  have hperm := Sorting.sortAll_perm ((sort.map sentSort).map (sortOrdering json)) kept
  have hnodup : ((Sorting.sortAll ((sort.map sentSort).map (sortOrdering json)) kept).map Prod.fst).Nodup :=
    (hperm.map Prod.fst).nodup_iff.2 (List.pairwise_map.2 (hordered.imp fun hlt => hlt.ne))
  refine ⟨_, by rw [hkept]; rfl, fun e => by rw [hperm.mem_iff, hmem], ?_, hnodup⟩
  have hcmps : (sort.map sentSort).map (sortOrdering json) = sort.map (DocumentQuerySort.ordering json) := by
    rw [List.map_map]
    exact List.map_congr_left fun first _ => sortOrdering_eq json first
  have hlexicographic : Sorting.Ordered (Sorting.lexicographic (sort.map (DocumentQuerySort.ordering json)) fun a b => compare a.1 b.1)
      (Sorting.sortAll (sort.map (DocumentQuerySort.ordering json)) kept) := by
    refine Sorting.ordered_sortAll ?_ (hordered.imp fun hlt => Ordering.isLE_of_eq_lt (compare_lt_iff_lt.2 hlt))
    intro cmp hcmp
    obtain ⟨first, -, rfl⟩ := List.mem_map.1 hcmp
    exact transCmp_ordering json first
  rw [hcmps] at hnodup ⊢
  exact hlexicographic.imp₂ (fun left right hle hne => comesBefore_of_isLE hne hle) (List.pairwise_map.1 hnodup)

/-! ## Pages in any order -/

section Pages

variable {α : Type} {rows : List (String × α)} {cursor : Option String} {place : Nat}

/-- A cursor stands at a place of a listing: at its beginning, or after the row it names. -/
def StandsAt (rows : List (String × α)) (place : Nat) : Option String → Prop
  | none => place = 0
  | some name => name ≠ "" ∧ 0 < place ∧ (rows[place - 1]?).map Prod.fst = some name

theorem findIdx?_place {i : Nat} {name : String} (hnodup : (rows.map Prod.fst).Nodup) (h : (rows[i]?).map Prod.fst = some name) :
    rows.findIdx? (fun row => row.1 = name) = some i := by
  obtain ⟨row, hrow, rfl⟩ := Option.map_eq_some_iff.1 h
  obtain ⟨hi, rfl⟩ := List.getElem?_eq_some_iff.1 hrow
  refine List.findIdx?_eq_some_iff_getElem.2 ⟨hi, by simp, fun j hj => ?_⟩
  have hi' : i < (rows.map Prod.fst).length := by simpa using hi
  have hj' : j < (rows.map Prod.fst).length := hj.trans hi'
  have hne : (rows.map Prod.fst)[j] ≠ (rows.map Prod.fst)[i] := fun heq => by
    have := (List.Nodup.getElem_inj_iff hnodup).1 heq
    omega
  simpa using hne

/-- `paginate` gives the page from the place of its cursor on. -/
theorem paginate_place (debug : String → String) {limit : UInt32} (hlimit : 0 < limit) (hnodup : (rows.map Prod.fst).Nodup)
    (hcursor : StandsAt rows place cursor) :
    paginate debug rows (some { limit := some limit, cursor := cursor.getD "" }) =
      .ok (((rows.drop place).take limit.toNat).map Prod.snd,
        if place + limit.toNat < rows.length then ((rows[place + limit.toNat - 1]?).map Prod.fst).getD "" else "") := by
  have hne : limit ≠ 0 := UInt32.pos_iff_ne_zero.1 hlimit
  have hstart : (if cursor.getD "" = "" then some 0
      else (rows.findIdx? fun row => row.1 = cursor.getD "").map fun index => index + 1) = some place := by
    cases cursor with
    | none =>
      rw [show place = 0 from hcursor]
      rfl
    | some name =>
      obtain ⟨hname, hpos, hrow⟩ := hcursor
      rw [Option.getD_some, if_neg hname, findIdx?_place hnodup hrow, Option.map_some]
      exact congrArg some (by omega)
  unfold paginate
  simp only [Option.bind_some, Option.getD_some, Option.map_some, if_neg hne, hstart]
  refine congrArg Except.ok (Prod.ext ?_ ?_)
  · refine congrArg (List.map Prod.snd) ?_
    rw [List.take_eq_take_iff, List.length_drop]
    omega
  · by_cases hmore : place + limit.toNat < rows.length
    · simp only [min_eq_left_of_lt hmore, if_pos hmore]
    · simp only [min_eq_right (not_lt.1 hmore), lt_irrefl, if_false, if_neg hmore]

end Pages

/-! ## A page of a query -/

variable {T : Type} {lowercase debug : String → String} {client : Client} {decode : List UInt8 → Except String T}
  {tenantId collection : String} {sort : List DocumentQuerySort} {limit : Option UInt32} {cursor : Option String} {world : World}
  {listed : List (String × List UInt8)} {place : Nat}

/-- The request for a page of a query. -/
def queryRequest (tenantId collection : String) (sent : List QueryFilter) (sort : List DocumentQuerySort) (limit : Option UInt32)
    (cursor : Option String) : QueryDocRequest :=
  { tenantId := tenantId, collection := collection, filters := sent, sort := sort.map sentSort,
    page := some { limit := some (limit.getD defaultPageSize), cursor := cursor.getD "" } }

/-- What the client makes of the answer to a query. -/
def queryOf (decode : List UInt8 → Except String T) (response : DocumentsResponse) : Result (DocumentPage T) :=
  (decodeContext "queried documents" (decodeDocumentPage decode response.json response.page)).map fun (items, nextCursor) =>
    { items := items, nextCursor := nextCursor, totalCount := response.totalCount }

/-- What the server answers to a query, from what it lists. -/
def queryAnswer (debug : String → String) (page : Option PageRequest) (listed : List (String × List UInt8)) :
    Except Status DocumentsResponse :=
  (paginate debug listed page).map fun shown =>
    { json := shown.1, page := some { nextCursor := shown.2 }, totalCount := UInt64.ofNat listed.length }

/-- A filter that cannot be evaluated is reported as an argument that is not valid. -/
theorem plain_matchesFilter (json : SerdeJson N) (lowercase : String → String) (document : Value N) (filter : QueryFilter) :
    Plain (matchesFilter json lowercase document filter) := by
  unfold matchesFilter
  dsimp only
  split
  · exact plain_error (by simp [invalidArgument, status]) rfl
  · exact plain_ok _
  · exact plain_ok _
  · exact plain_ok _
  · exact plain_error (by simp [invalidArgument, status]) rfl

theorem plain_keeps (json : SerdeJson N) (lowercase : String → String) (document : Value N) (filters : List QueryFilter) :
    Plain (keeps json lowercase document filters) := by
  induction filters with
  | nil => exact plain_ok _
  | cons filter filters ih =>
    have hfilter := plain_matchesFilter json lowercase document filter
    unfold keeps
    split
    · rename_i e he
      exact plain_error (hfilter e he).1 (hfilter e he).2
    · exact plain_ok _
    · exact ih

theorem plain_matching (json : SerdeJson N) (lowercase : String → String) (filters : List QueryFilter)
    (rows : List (String × List UInt8)) : Plain (matching json lowercase filters rows) := by
  induction rows with
  | nil => exact plain_ok _
  | cons row rows ih =>
    have hkeeps := plain_keeps json lowercase (json.asObject row.2) filters
    unfold matching
    split
    · rename_i e he
      exact plain_error (hkeeps e he).1 (hkeeps e he).2
    · exact ih.map _

theorem plain_queryAnswer (debug : String → String) (page : Option PageRequest) (listed : List (String × List UInt8)) :
    Plain (queryAnswer debug page listed) :=
  Plain.map (plain_paginate _ _ _) _

theorem queryDoc_eq (json : SerdeJson N) (lowercase debug : String → String) (authorization : Option String) (r : QueryDocRequest) :
    State.queryDoc json lowercase debug authorization r = State.read "QueryDoc" authorization fun store =>
      ((matching json lowercase r.filters (documentEntries r.tenantId r.collection store)).map
        (Sorting.sortAll (r.sort.map (sortOrdering json)))).bind (queryAnswer debug r.page) := by
  unfold State.queryDoc
  funext s
  refine congrArg (fun answer => State.read "QueryDoc" authorization answer s) (funext fun store => ?_)
  show _ = ((matching json lowercase r.filters (store.documents.rows (r.tenantId, r.collection)).toList).map _).bind _
  cases matching json lowercase r.filters (store.documents.rows (r.tenantId, r.collection)).toList <;> rfl

/-- A query is a read. -/
theorem queryDoc_reads (json : SerdeJson N) (lowercase debug : String → String) (r : QueryDocRequest) :
    Reads (State.queryDoc json lowercase debug) r "QueryDoc" fun store =>
      ((matching json lowercase r.filters (documentEntries r.tenantId r.collection store)).map
        (Sorting.sortAll (r.sort.map (sortOrdering json)))).bind (queryAnswer debug r.page) where
  eq authorization := queryDoc_eq json lowercase debug authorization r
  plain _ := ((plain_matching json lowercase _ _).map _).bind fun _ => plain_queryAnswer _ _ _

/-- A query of the client is read from the server. -/
theorem queryDocuments_eq (hlimit : limit ≠ some 0) (hfilters : buildQueryFilters json filters = .ok sent) :
    queryDocuments (hosted client (State.queryDoc json lowercase debug)) json decode tenantId collection filters sort limit
        cursor world =
      readDecoded (hosted client (State.queryDoc json lowercase debug)) "failed to query documents"
        (queryRequest tenantId collection sent sort limit cursor) (queryOf decode) world := by
  unfold queryDocuments pageRequest
  rw [hfilters, if_neg hlimit]
  rfl

/-- A query that is let in returns the page from the place of its cursor on. -/
theorem queryDocuments_place (hlimit : limit ≠ some 0) (hfilters : buildQueryFilters json filters = .ok sent)
    (hopen : world.Admits client "QueryDoc")
    (hlisted : (matching json lowercase sent (documentEntries tenantId collection (world.arrived client "QueryDoc").store)).map
      (Sorting.sortAll ((sort.map sentSort).map (sortOrdering json))) = .ok listed)
    (hnodup : (listed.map Prod.fst).Nodup) (hcursor : StandsAt listed place cursor) :
    let size := (limit.getD defaultPageSize).toNat
    queryDocuments (hosted client (State.queryDoc json lowercase debug)) json decode tenantId collection filters sort limit
        cursor world =
      ((decodeContext "queried documents" (decodeItems decode 0 (((listed.drop place).take size).map Prod.snd))).map fun shown => {
          items := shown
          nextCursor := nonEmpty
            (if place + size < listed.length then ((listed[place + size - 1]?).map Prod.fst).getD "" else "")
          totalCount := UInt64.ofNat listed.length },
        world.later (world.arrived client "QueryDoc")) := by
  intro size
  rw [queryDocuments_eq hlimit hfilters,
    read_let_in "failed to query documents" (queryDoc_reads json lowercase debug _) (queryOf decode) hopen]
  refine Prod.ext ?_ rfl
  simp only [queryRequest, hlisted]
  simp only [Except.bind, queryAnswer, paginate_place debug (limit_pos hlimit) hnodup hcursor]
  simp only [Except.map, statusContext, queryOf, decodeDocumentPage]
  cases decodeItems decode 0 _ <;> rfl

/-! ## Searches -/

section Searches

variable {field : String} {value wanted : Value N} {payload : List UInt8} {rows : List (String × List UInt8)}

/-- What a search lists. -/
def foundBy (json : SerdeJson N) (field : String) (wanted : Value N) (rows : List (String × List UInt8)) : List (String × List UInt8) :=
  rows.filter fun row => ((json.asObject row.2).get? field).any fun found => found.eq json.toNumbers wanted

/-- A search is a read. -/
theorem findByField_reads (debug : String → String) {r : FindByFieldRequest} (hread : json.fromSlice r.valueJson = .ok wanted) :
    Reads (State.findByField json debug) r "FindByField" fun store =>
      queryAnswer debug r.page (foundBy json r.field wanted (documentEntries r.tenantId r.collection store)) where
  eq authorization := by
    unfold State.findByField
    rw [hread]
    rfl
  plain _ := plain_queryAnswer _ _ _

/-- A document that is found passes the filter for it, and the other way round unless its field is missing and `Null` is wanted. -/
theorem found_iff (lowercase : String → String) (hreceived : json.received value = wanted) (document : Value N)
    (hpresent : wanted ≠ .null ∨ (document.get? field).isSome = true) :
    ((document.get? field).any fun found => found.eq json.toNumbers wanted) = true ↔
      DocumentQueryFilter.Holds json lowercase { field := field, operator := .eq, values := [value] } document := by
  simp only [DocumentQueryFilter.Holds, List.head?_cons, Option.mem_def, Option.some.injEq, exists_eq_left', hreceived, Value.fieldOf]
  cases hfield : document.get? field with
  | some found => simp [eq_symm json.toNumbers found wanted]
  | none =>
    rw [hfield] at hpresent
    simp [eq_null json.toNumbers (hpresent.resolve_right (by simp))]

/-- What a search lists is what a query with one filter lists. -/
theorem matching_search (h : List.Forall₂ (Sends json) [{ field := field, operator := .eq, values := [value] }] sent)
    (lowercase : String → String) (hreceived : json.received value = wanted) (hsorted : Sorted rows)
    (hpresent : wanted ≠ .null ∨ ∀ row ∈ rows, ((json.asObject row.2).get? field).isSome = true) :
    matching json lowercase sent rows = .ok (foundBy json field wanted rows) := by
  obtain ⟨kept, hkept, hsublist, hmem⟩ := matching_eq h lowercase rows
  rw [hkept]
  refine congrArg Except.ok ?_
  have hirrefl : Std.Irrefl fun left right : String × List UInt8 => left.1 < right.1 := ⟨fun row => lt_irrefl row.1⟩
  have hantisymm : Std.Antisymm fun left right : String × List UInt8 => left.1 < right.1 :=
    ⟨fun left right hlt hgt => absurd hlt (lt_asymm hgt)⟩
  refine List.Pairwise.eq_of_mem_iff (hsorted.sublist hsublist) (hsorted.filter _) fun row => ?_
  rw [hmem, foundBy, List.mem_filter]
  refine and_congr_right fun hrow => ?_
  rw [found_iff lowercase hreceived (json.asObject row.2) (hpresent.imp_right fun hall => hall row hrow)]
  simp

/-- A search of the client is read from the server. -/
theorem searchDocuments_eq (hlimit : limit ≠ some 0) (hsent : json.toVec value = .ok payload) :
    searchDocuments (hosted client (State.findByField json debug)) json.toVec decode tenantId collection field value limit
        cursor world =
      readDecoded (hosted client (State.findByField json debug)) "failed to search documents"
        { tenantId := tenantId, collection := collection, field := field, valueJson := payload,
          page := some { limit := some (limit.getD defaultPageSize), cursor := cursor.getD "" } }
        (fun response => (decodeContext "search results" (decodeDocumentPage decode response.json response.page)).map fun shown =>
          { items := shown.1, nextCursor := shown.2, totalCount := response.totalCount })
        world := by
  unfold searchDocuments pageRequest
  rw [hsent, if_neg hlimit]
  rfl

/-- The pages that are read with different contexts are the same. -/
theorem page_iff {operation operation' context context' : String} {answer : Except Status DocumentsResponse}
    {page : DocumentPage T} {of of' : DocumentsResponse → Result (DocumentPage T)}
    (hof : ∀ response, of response =
      (decodeContext context (decodeDocumentPage decode response.json response.page)).map fun shown =>
        { items := shown.1, nextCursor := shown.2, totalCount := response.totalCount })
    (hof' : ∀ response, of' response =
      (decodeContext context' (decodeDocumentPage decode response.json response.page)).map fun shown =>
        { items := shown.1, nextCursor := shown.2, totalCount := response.totalCount }) :
    (statusContext operation answer).bind of = .ok page ↔ (statusContext operation' answer).bind of' = .ok page := by
  cases answer with
  | error e => simp [statusContext, Except.bind]
  | ok response =>
    simp only [statusContext, Except.bind, hof, hof']
    cases decodeDocumentPage decode response.json response.page <;> simp [decodeContext, Except.map]

end Searches

/-! ## A walk over a listing that does not change -/

section Walks

variable {σ : Type} {list : Option String → σ → Result (Page T) × σ} {context : String} {world : σ} {size n : Nat} {seen : List T}

/-- A walk goes on after a page: it is not the last one, and the id it ends with is not empty. -/
def GoesOn (listed : List (String × List UInt8)) (size page : Nat) : Prop :=
  (page + 1) * size < listed.length ∧ (listed[(page + 1) * size - 1]?).map Prod.fst ≠ some ""

/-- The pages of a listing are read by place, in a world that does not change. -/
def ReadByPlace (decode : List UInt8 → Except String T) (context : String) (listed : List (String × List UInt8)) (size : Nat)
    (list : Option String → σ → Result (Page T) × σ) (world : σ) : Prop :=
  ∀ place cursor, StandsAt listed place cursor → list cursor world =
    ((decodeContext context (decodeItems decode 0 (((listed.drop place).take size).map Prod.snd))).map fun shown => {
        items := shown
        nextCursor := nonEmpty (if place + size < listed.length then ((listed[place + size - 1]?).map Prod.fst).getD "" else "") },
      world)

variable (hread : ReadByPlace decode context listed size list world)

include hread

/-- A page that is decoded and after which the walk goes on. -/
theorem turn_goes_on (hsize : 0 < size) (hcursor : StandsAt listed (n * size) cursor) (hgo : GoesOn listed size n) {shown : List T}
    (hshown : Decodes decode (((listed.drop (n * size)).take size).map Prod.snd) shown) :
    ∃ next, StandsAt listed ((n + 1) * size) next ∧
      Walk.turn list ⟨world, cursor, seen⟩ = .running ⟨world, next, seen ++ shown⟩ := by
  obtain ⟨hmore, hname⟩ := hgo
  rw [Nat.add_mul, Nat.one_mul] at hmore hname ⊢
  obtain ⟨row, hrow⟩ : ∃ row, listed[n * size + size - 1]? = some row := ⟨_, List.getElem?_eq_getElem (by omega)⟩
  rw [hrow, Option.map_some, ne_eq, Option.some_inj] at hname
  refine ⟨some row.1, ⟨hname, by omega, by rw [hrow]; rfl⟩, ?_⟩
  have hpage := hread _ _ hcursor
  rw [decodeItems_ok_iff.2 hshown, if_pos hmore, hrow] at hpage
  exact turn_of_next hpage (if_neg hname)

/-- A page that is decoded and after which the walk does not go on. -/
theorem turn_stops (hcursor : StandsAt listed (n * size) cursor) (hgo : ¬GoesOn listed size n) {shown : List T}
    (hshown : Decodes decode (((listed.drop (n * size)).take size).map Prod.snd) shown) :
    Walk.turn list ⟨world, cursor, seen⟩ = .stopped (.ok (seen ++ shown)) world := by
  have hpage := hread _ _ hcursor
  rw [decodeItems_ok_iff.2 hshown] at hpage
  refine turn_of_last hpage ?_
  unfold GoesOn at hgo
  rw [Nat.add_mul, Nat.one_mul] at hgo
  by_cases hmore : n * size + size < listed.length
  · have hname : (listed[n * size + size - 1]?).map Prod.fst = some "" := by
      by_contra hne
      exact hgo ⟨hmore, hne⟩
    simp only [if_pos hmore, hname]
    rfl
  · simp only [if_neg hmore]
    rfl

/-- A walk that has gone on so far has read as many pages. -/
theorem running_place (hsize : 0 < size) (hgo : ∀ page < n, GoesOn listed size page)
    (hseen : Decodes decode ((listed.take (n * size)).map Prod.snd) seen) :
    ∃ cursor, StandsAt listed (n * size) cursor ∧ walk list world n = .running ⟨world, cursor, seen⟩ := by
  induction n generalizing seen with
  | zero =>
    rw [Nat.zero_mul, List.take_zero] at hseen
    cases hseen
    exact ⟨none, Nat.zero_mul size, rfl⟩
  | succ n ih =>
    rw [Nat.add_mul, Nat.one_mul, List.take_add, List.map_append] at hseen
    obtain ⟨first, shown, hfirst, hshown, rfl⟩ := decodes_append hseen
    obtain ⟨cursor, hcursor, hrunning⟩ := ih (fun page hpage => hgo page (Nat.lt_succ_of_lt hpage)) hfirst
    obtain ⟨next, hnext, hturn⟩ := turn_goes_on hread hsize hcursor (hgo n (Nat.lt_succ_self n)) hshown
    exact ⟨next, hnext, (walk_succ hrunning).trans hturn⟩

/-- A walk stops after the first page after which it does not go on. -/
theorem stopped_place (hsize : 0 < size) (hgo : ∀ page < n, GoesOn listed size page) (hlast : ¬GoesOn listed size n)
    (hseen : Decodes decode ((listed.take ((n + 1) * size)).map Prod.snd) seen) :
    walk list world (n + 1) = .stopped (.ok seen) world := by
  rw [Nat.add_mul, Nat.one_mul, List.take_add, List.map_append] at hseen
  obtain ⟨first, shown, hfirst, hshown, rfl⟩ := decodes_append hseen
  obtain ⟨cursor, hcursor, hrunning⟩ := running_place hread hsize hgo hfirst
  exact (walk_succ hrunning).trans (turn_stops hread hcursor hlast hshown)

/-- A walk over a listing without an empty id reads all of it. -/
theorem whole_place (hsize : 0 < size) (hname : "" ∉ listed.map Prod.fst) (hseen : Decodes decode (listed.map Prod.snd) seen) :
    walk list world ((listed.length - 1) / size + 1) = .stopped (.ok seen) world := by
  have hbefore := Nat.div_mul_le_self (listed.length - 1) size
  have hrest := Nat.lt_div_mul_add (a := listed.length - 1) hsize
  refine stopped_place hread hsize (fun page hpage => ⟨?_, fun hempty => hname ?_⟩) (fun hgo => ?_) ?_
  · have hpages : (page + 1) * size ≤ (listed.length - 1) / size * size := Nat.mul_le_mul_right size hpage
    have hpos : size ≤ (page + 1) * size := Nat.le_mul_of_pos_left size (Nat.succ_pos page)
    omega
  · obtain ⟨row, hrow, hid⟩ := Option.map_eq_some_iff.1 hempty
    exact hid ▸ List.mem_map_of_mem (List.mem_of_getElem? hrow)
  · have hmore := hgo.1
    rw [Nat.add_mul, Nat.one_mul] at hmore
    omega
  · rwa [List.take_of_length_le]
    rw [Nat.add_mul, Nat.one_mul]
    omega

/-- A walk stops at the first document that cannot be decoded. -/
theorem garbled_place (hsize : 0 < size) {front back : List (String × List UInt8)} {e : String × List UInt8} {before : List T}
    {error : String} (hlisted : listed = front ++ e :: back) (hgo : ∀ page < front.length / size, GoesOn listed size page)
    (hbefore : Decodes decode (front.map Prod.snd) before) (herror : decode e.2 = .error error) :
    walk list world (front.length / size + 1) =
      .stopped (.error (.decode context ("item " ++ toString (front.length % size) ++ ": " ++ error))) world := by
  have hle := Nat.div_mul_le_self front.length size
  rw [← List.take_append_drop (front.length / size * size) front, List.map_append] at hbefore
  obtain ⟨first, rest, hfirst, hrest, rfl⟩ := decodes_append hbefore
  have htake : listed.take (front.length / size * size) = front.take (front.length / size * size) := by
    rw [hlisted, List.take_append_of_le_length hle]
  obtain ⟨cursor, hcursor, hrunning⟩ := running_place hread hsize hgo (htake ▸ hfirst)
  have hanswer := hread _ _ hcursor
  rw [decodeItems_page hsize hlisted hrest herror] at hanswer
  exact (walk_succ hrunning).trans (turn_of_error hanswer)

end Walks

/-- With nobody else at work, the pages of a query are read by place. -/
theorem readByPlace_query {header : String} {s : State} (hlimit : limit ≠ some 0) (hfilters : buildQueryFilters json filters = .ok sent)
    (hopen : s.LetsIn "QueryDoc" (client.authorization header))
    (hlisted : (matching json lowercase sent (documentEntries tenantId collection s.store)).map
      (Sorting.sortAll ((sort.map sentSort).map (sortOrdering json))) = .ok listed)
    (hnodup : (listed.map Prod.fst).Nodup) :
    ReadByPlace decode "queried documents" listed (limit.getD defaultPageSize).toNat
      (queryPage json lowercase debug client decode tenantId collection filters sort limit) (World.alone header s) := by
  intro place cursor hcursor
  obtain ⟨hadmits, harrived⟩ := alone_let_in hopen
  rw [← harrived] at hlisted
  unfold queryPage
  rw [queryDocuments_place hlimit hfilters hadmits hlisted hnodup hcursor, harrived]
  refine Prod.ext ?_ rfl
  cases decodeContext "queried documents" (decodeItems decode 0 _) <;> rfl

end QueryAux

end Server

end RociaSdk
