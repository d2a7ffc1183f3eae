import RociaSdk.Hosted
import RociaSdk.Json
import RociaSdk.Lib.Sorting

/-!
# Searches and queries

`query_documents` (`document.rs`), and what the server of the tests makes of it and of `search_documents` (`find_by_field`, `query_doc`).
A query keeps the documents of a collection that pass all its filters, and lists them by its sort list. `serde_json` and
`str::to_lowercase` are parameters.
-/

namespace RociaSdk

variable {N σ T : Type}

/-! ## Requests -/

/-- `QueryOperator`. -/
inductive QueryOperator where
  | unspecified
  | eq
  | isIn
  | contains
deriving DecidableEq, Repr

/-- `QueryOperator::try_from`. -/
def QueryOperator.tryFrom (operator : Int32) : Option QueryOperator :=
  if operator = 0 then some unspecified
  else if operator = 1 then some eq
  else if operator = 2 then some isIn
  else if operator = 3 then some contains
  else none

/-- `SortDirection::Asc`. -/
def sortDirectionAsc : Int32 := 1

/-- `SortDirection::Desc`. -/
def sortDirectionDesc : Int32 := 2

/-- `QueryFilter`. -/
structure QueryFilter where
  field : String
  operator : Int32
  valuesJson : List (List UInt8)
deriving DecidableEq, Repr

/-- `QuerySort`. -/
structure QuerySort where
  field : String
  direction : Int32
deriving DecidableEq, Repr

/-- `QueryDocRequest`. -/
structure QueryDocRequest where
  tenantId : String
  collection : String
  filters : List QueryFilter
  sort : List QuerySort
  page : Option PageRequest
deriving DecidableEq, Repr

/-! ## The client -/

/-- `DocumentQueryOperator`. -/
inductive DocumentQueryOperator where
  | eq
  | isIn
  | contains
deriving DecidableEq, Repr

/-- `DocumentQueryOperator::as_proto`. -/
def DocumentQueryOperator.asProto : DocumentQueryOperator → Int32
  | eq => 1
  | isIn => 2
  | contains => 3

/-- `DocumentQuerySortDirection`. -/
inductive DocumentQuerySortDirection where
  | asc
  | desc
deriving DecidableEq, Repr

/-- `DocumentQuerySortDirection::as_proto`. -/
def DocumentQuerySortDirection.asProto : DocumentQuerySortDirection → Int32
  | asc => sortDirectionAsc
  | desc => sortDirectionDesc

/-- `DocumentQueryFilter`. -/
structure DocumentQueryFilter (N : Type) where
  field : String
  operator : DocumentQueryOperator
  values : List (Value N)

/-- `DocumentQuerySort`. -/
structure DocumentQuerySort where
  field : String
  direction : DocumentQuerySortDirection
deriving DecidableEq, Repr

/-- `build_query_filters`: the values of each filter are encoded, up to the first that cannot be. -/
def buildQueryFilters (json : SerdeJson N) (filters : List (DocumentQueryFilter N)) : Result (List QueryFilter) :=
  filters.mapM fun filter =>
    (encodeContext "query filter value" (filter.values.mapM json.toVec)).map fun valuesJson =>
      { field := filter.field, operator := filter.operator.asProto, valuesJson := valuesJson }

/-- `query_documents`: the filters are encoded before the page request is made. -/
def queryDocuments (unary : Unary σ QueryDocRequest DocumentsResponse) (json : SerdeJson N) (decode : List UInt8 → Except String T)
    (tenantId collection : String) (filters : List (DocumentQueryFilter N)) (sort : List DocumentQuerySort) (limit : Option UInt32)
    (cursor : Option String) (world : σ) : Result (DocumentPage T) × σ :=
  match buildQueryFilters json filters with
  | .error e => (.error e, world)
  | .ok filters =>
    match pageRequest limit cursor with
    | .error e => (.error e, world)
    | .ok page =>
      documentPage unary decode "failed to query documents" "queried documents" {
        tenantId := tenantId
        collection := collection
        filters := filters
        sort := sort.map fun sort => { field := sort.field, direction := sort.direction.asProto }
        page := page } world

/-! ## The server -/

namespace Server

variable (json : SerdeJson N) (lowercase : String → String)

/-- `matches_filter`. -/
def matchesFilter (document : Value N) (filter : QueryFilter) : Except Status Bool :=
  let field := document.fieldOf filter.field
  let values := filter.valuesJson.map json.asObject
  match QueryOperator.tryFrom filter.operator with
  | none => .error (invalidArgument ("unknown query operator " ++ toString filter.operator))
  | some .eq => .ok (values.head?.any fun value => value.eq json.toNumbers field)
  | some .isIn => .ok (values.any fun value => value.eq json.toNumbers field)
  | some .contains =>
    .ok (match field, values.head? with
      | .string haystack, some (.string needle) => decide ((lowercase needle).toList <:+: (lowercase haystack).toList)
      | .array items, some needle => items.any fun item => item.eq json.toNumbers needle
      | _, _ => false)
  | some .unspecified => .error (invalidArgument "query operator must be specified")

/-- Whether a document is kept: the filters are looked at up to the first that it does not pass. -/
def keeps (document : Value N) : List QueryFilter → Except Status Bool
  | [] => .ok true
  | filter :: filters =>
    match matchesFilter json lowercase document filter with
    | .error e => .error e
    | .ok false => .ok false
    | .ok true => keeps document filters

/-- The documents that are kept, up to the first for which a filter cannot be evaluated. -/
def matching (filters : List QueryFilter) : List (String × List UInt8) → Except Status (List (String × List UInt8))
  | [] => .ok []
  | (id, payload) :: rest =>
    match keeps json lowercase (json.asObject payload) filters with
    | .error e => .error e
    | .ok keep => (matching filters rest).map fun entries => if keep then (id, payload) :: entries else entries

/-- How a sort compares two documents. -/
def sortOrdering (sort : QuerySort) (left right : String × List UInt8) : Ordering :=
  let ordering := Value.compareJson json.toNumbers ((json.asObject left.2).fieldOf sort.field)
    ((json.asObject right.2).fieldOf sort.field)
  if sort.direction = sortDirectionDesc then ordering.swap else ordering

namespace State

/-- `find_by_field`. -/
def findByField (debug : String → String) (authorization : Option String) (r : FindByFieldRequest) (s : State) :
    Except Status DocumentsResponse × State :=
  s.read "FindByField" authorization fun store =>
    match json.fromSlice r.valueJson with
    | .error error => .error (invalidArgument ("value_json is not JSON: " ++ error))
    | .ok wanted =>
      let matching := (store.documents.rows (r.tenantId, r.collection)).toList.filter fun (_, payload) =>
        ((json.asObject payload).get? r.field).any fun field => field.eq json.toNumbers wanted
      (paginate debug matching r.page).map fun (payloads, nextCursor) =>
        { json := payloads, page := some { nextCursor := nextCursor }, totalCount := UInt64.ofNat matching.length }

/-- `query_doc`. -/
def queryDoc (debug : String → String) (authorization : Option String) (r : QueryDocRequest) (s : State) :
    Except Status DocumentsResponse × State :=
  s.read "QueryDoc" authorization fun store =>
    match matching json lowercase r.filters (store.documents.rows (r.tenantId, r.collection)).toList with
    | .error e => .error e
    | .ok matching =>
      let sorted := Sorting.sortAll (r.sort.map (sortOrdering json)) matching
      (paginate debug sorted r.page).map fun (payloads, nextCursor) =>
        { json := payloads, page := some { nextCursor := nextCursor }, totalCount := UInt64.ofNat sorted.length }

end State

/-! ## What the client reads -/

/-- A page of a query, as the client reads it from the server: what the loop of `docs/pagination.md` uses of it. -/
def queryPage (debug : String → String) (client : Client) (decode : List UInt8 → Except String T)
    (tenantId collection : String) (filters : List (DocumentQueryFilter N)) (sort : List DocumentQuerySort) (limit : Option UInt32)
    (cursor : Option String) (world : World) : Result (Page T) × World :=
  let (page, world) := queryDocuments (hosted client (State.queryDoc json lowercase debug)) json decode tenantId collection
    filters sort limit cursor world
  (page.map DocumentPage.toPage, world)

end Server

end RociaSdk
