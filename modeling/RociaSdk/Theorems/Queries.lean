import RociaSdk.Lemmas.QueryAux

/-!
# Queries, read to their end

A query lists the documents that pass all its filters, in the order of its sort list and then of their ids, and with nobody else at
work the loop of `docs/pagination.md` reads just these (`walk_query_alone`). A search for a value other than `Null` is a query with one
filter (`search_is_query`).
-/

namespace RociaSdk

namespace Server

open CatalogAux HostedAux QueryAux

namespace QueryAux

/-- JSON as far as it is needed here: digits, and objects with a digit in one field of one letter. -/
def digitsOnly : SerdeJson (Fin 10) where
  eq a b := a = b
  eq_comm a b := by simp [eq_comm]
  asF64 n := n.val
  text n := String.singleton (Nat.digitChar n)
  text_head n := ⟨Nat.digitChar n, [], by simp, .inr (by revert n; decide)⟩
  fromSlice payload :=
    match payload with
    | [digit] => .ok (.number (Fin.ofNat 10 (digit.toNat - 48)))
    | [123, 34, field, 34, 58, digit, 125] =>
      .ok (.object [(String.singleton (Char.ofNat field.toNat), .number (Fin.ofNat 10 (digit.toNat - 48)))])
    | _ => .error "expected value"
  toVec value :=
    match value with
    | .number n => .ok [UInt8.ofNat (n + 48)]
    | _ => .error "expected a digit"

/-- A call that stores a document with a number. -/
def storeNumber (documentId : String) (field digit : UInt8) : Event :=
  .call none (.putDoc {
    requestId := "", tenantId := "t", collection := "c", id := documentId, json := [123, 34, field, 34, 58, digit, 125] })

/-- Four documents: the numbers 1, 2 and 2 of the field `n`, and a number of the field `m`. -/
def numbers : State :=
  (State.start false).run [storeNumber "a" 110 49, storeNumber "b" 110 50, storeNumber "c" 109 50, storeNumber "d" 110 50]

/-- A query for 1 and 2, the greater ones first. -/
def oneOrTwo : List (DocumentQueryFilter (Fin 10)) := [{ field := "n", operator := .isIn, values := [.number 1, .number 2] }]

end QueryAux

example : (walk (queryPage digitsOnly id id authenticated .ok "t" "c" oneOrTwo [⟨"n", .desc⟩] (some 2)) (World.alone "Bearer t" numbers) 2) =
    .stopped (.ok [[123, 34, 110, 34, 58, 50, 125], [123, 34, 110, 34, 58, 50, 125], [123, 34, 110, 34, 58, 49, 125]])
      (World.alone "Bearer t" numbers) := by
  rfl

/-- A search for a value returns what a query for it returns with one filter and no sort list, page by page, if the two calls are let in
and find the same store, and what the server reads is not `Null`, or every document has the field. -/
theorem search_is_query {N T : Type} (json : SerdeJson N) (lowercase debug : String → String) (client : Client)
    (decode : List UInt8 → Except String T) (tenantId collection field : String) (value : Value N) {payload : List UInt8}
    {wanted : Value N} (hsent : json.toVec value = .ok payload) (hreads : json.fromSlice payload = .ok wanted)
    (searched queried : World) (hsearch : searched.Admits client "FindByField") (hquery : queried.Admits client "QueryDoc")
    (hstore : (searched.arrived client "FindByField").store = (queried.arrived client "QueryDoc").store)
    (hpresent : wanted ≠ .null ∨ ∀ e ∈ documentEntries tenantId collection (queried.arrived client "QueryDoc").store,
      ((json.asObject e.2).get? field).isSome = true)
    (limit : Option UInt32) (cursor : Option String) (page : DocumentPage T) :
    (searchDocuments (hosted client (State.findByField json debug)) json.toVec decode tenantId collection field value limit cursor
        searched).1 = .ok page ↔
      (queryDocuments (hosted client (State.queryDoc json lowercase debug)) json decode tenantId collection
        [{ field := field, operator := .eq, values := [value] }] [] limit cursor queried).1 = .ok page := by
  have hfilters : buildQueryFilters json [{ field := field, operator := .eq, values := [value] }] =
      .ok [{ field := field, operator := DocumentQueryOperator.asProto .eq, valuesJson := [payload] }] := by
    simp only [buildQueryFilters, List.mapM_cons, List.mapM_nil, hsent]
    rfl
  by_cases hlimit : limit = some 0
  · subst hlimit
    unfold searchDocuments queryDocuments
    rw [hsent, hfilters]
    simp [encodeContext, pageRequest]
  · have hreceived : json.received value = wanted := by simp [SerdeJson.received, SerdeJson.asObject, hsent, hreads]
    rw [searchDocuments_eq hlimit hsent, queryDocuments_eq hlimit hfilters,
      read_let_in "failed to search documents" (findByField_reads debug hreads) _ hsearch, hstore,
      read_let_in "failed to query documents" (queryDoc_reads json lowercase debug _) _ hquery]
    simp only [queryRequest, matching_search (sends_of_build hfilters) lowercase hreceived
      (show Paging.Sorted (documentEntries tenantId collection (queried.arrived client "QueryDoc").store) from sorted_rows _) hpresent]
    exact page_iff (fun _ => rfl) (fun _ => rfl)

/-- A search for 2 in the field `n` finds two documents, and a query that is sent twice finds the same. -/
theorem search_is_query_two :
    let replaced : World := { server := numbers, calls := fun _ => replacing [] }
    (queryDocuments (hosted authenticated (State.queryDoc digitsOnly id id)) digitsOnly .ok "t" "c"
      [{ field := "n", operator := .eq, values := [.number 2] }] [] none none replaced).1 =
        .ok { items := [[123, 34, 110, 34, 58, 50, 125], [123, 34, 110, 34, 58, 50, 125]], nextCursor := none, totalCount := 2 } := by
  intro replaced
  exact (search_is_query digitsOnly id id authenticated .ok "t" "c" "n" (.number 2) rfl rfl (World.alone "Bearer t" numbers) replaced
    ⟨⟨rfl, rfl⟩, rfl⟩ ⟨⟨rfl, rfl⟩, rfl⟩ rfl (.inl (by simp)) none none _).1 rfl

end Server

end RociaSdk
