import Mathlib.Data.Finset.Insert
import RociaSdk.Document
import RociaSdk.Listings
import RociaSdk.Lib.Decimals
import RociaSdk.Lib.Table

/-!
# The server of the tests

The store of the in-memory server that the client is run against (`tests/support/mod.rs`), with what its handlers share: the
idempotency markers, the clock, the checks every call passes first, and pagination. A `BTreeMap` is an ordered map, and the order
of a `String` is the same in both languages. The recorder of calls and the artificial delays are left out.
-/

namespace RociaSdk

namespace Server

/-! ## Statuses -/

/-- `status`, less the `reason` in its metadata. -/
def status (code : Code) (message : String) : Status := { code := code, message := message, timeoutExpired := false }

/-- `not_found`. -/
def notFound (message : String) : Status := status .notFound message

/-- `already_exists`. -/
def alreadyExists (message : String) : Status := status .alreadyExists message

/-- `invalid_argument`. -/
def invalidArgument (message : String) : Status := status .invalidArgument message

/-! ## The clock -/

/-- `TIMESTAMP_BASE_UNIX_SECONDS`: 2024-01-01T00:00:00Z. -/
def timestampBaseUnixSeconds : Int := 1704067200

/-- `civil_from_unix`. On the instants of the format its `i64` does not overflow. -/
def civilFromUnix (unixSeconds : Int) : Int × Int × Int × Int × Int × Int :=
  let secondsOfDay := unixSeconds % 86400
  let days := unixSeconds / 86400 + 719468
  let era := (if days ≥ 0 then days else days - 146096).tdiv 146097
  let dayOfEra := days - era * 146097
  let yearOfEra := (dayOfEra - dayOfEra.tdiv 1460 + dayOfEra.tdiv 36524 - dayOfEra.tdiv 146096).tdiv 365
  let year := yearOfEra + era * 400
  let dayOfYear := dayOfEra - (365 * yearOfEra + yearOfEra.tdiv 4 - yearOfEra.tdiv 100)
  let shiftedMonth := (5 * dayOfYear + 2).tdiv 153
  let day := dayOfYear - (153 * shiftedMonth + 2).tdiv 5 + 1
  let month := if shiftedMonth < 10 then shiftedMonth + 3 else shiftedMonth - 9
  let year := if month ≤ 2 then year + 1 else year
  (year, month, day, secondsOfDay.tdiv 3600, (secondsOfDay.tdiv 60).tmod 60, secondsOfDay.tmod 60)

/-- `{value:0width$}` of a number with no more digits than that. -/
def padded (width : Nat) (value : Int) : String :=
  String.ofList ((Decimals.fixed width value.toNat).map fun byte => Char.ofUInt8 byte)

/-- `format_rfc3339`, of an instant in the years 0 to 9999. -/
def formatRfc3339 (unixSeconds : Int) : String :=
  let (year, month, day, hour, minute, second) := civilFromUnix unixSeconds
  padded 4 year ++ "-" ++ padded 2 month ++ "-" ++ padded 2 day ++ "T" ++ padded 2 hour ++ ":" ++ padded 2 minute ++ ":" ++
    padded 2 second ++ "Z"

/-- `format_local_date_time`, of an instant in the years 0 to 9999. -/
def formatLocalDateTime (unixSeconds : Int) : String :=
  let (year, month, day, hour, minute, second) := civilFromUnix unixSeconds
  padded 4 year ++ "-" ++ padded 2 month ++ "-" ++ padded 2 day ++ " " ++ padded 2 hour ++ ":" ++ padded 2 minute ++ ":" ++
    padded 2 second

/-! ## The store -/

/-- A `BTreeMap<(String, String), BTreeMap<String, _>>`: rows by tenant, by collection, graph or bucket, and by id. -/
abbrev Rows (α : Type) := Table (String × String) String α (@compare _ lexOrd) compare

/-- `StoredFile`. -/
structure StoredFile where
  bytes : List UInt8
  sizeBytes : UInt64
  contentType : String
  checksum : List UInt8
  createdAt : String
  updatedAt : String
deriving DecidableEq, Repr

/-- What a server stores: the part of `State` that writes change, markers apart. Its clock is the number of writes it has stamped: a
`u64` in the source, and a number here, for no test comes near the end of it. -/
structure Store where
  documents : Rows (List UInt8)
  nodes : Rows (List UInt8)
  edges : Rows StoredEdge
  files : Rows StoredFile
  tenants : Std.ExtTreeSet String
  writes : Nat
  nonRfc3339Timestamps : Bool

namespace Store

/-- The store of `State::default`. -/
def empty : Store :=
  { documents := ∅, nodes := ∅, edges := ∅, files := ∅, tenants := ∅, writes := 0, nonRfc3339Timestamps := false }

/-- `register`. -/
def register (store : Store) (tenantId : String) : Store := { store with tenants := store.tenants.insert tenantId }

/-- `tick`. -/
def tick (store : Store) : String × Store :=
  let writes := store.writes + 1
  let unixSeconds := timestampBaseUnixSeconds + writes
  (if store.nonRfc3339Timestamps then formatLocalDateTime unixSeconds else formatRfc3339 unixSeconds,
    { store with writes := writes })

/-- `neighbors`: by edge id, in the order of the ids. -/
def neighbors (store : Store) (tenantId graph nodeId label : String) (outgoing : Bool) : List (String × Neighbor) :=
  ((store.edges.rows (tenantId, graph)).toList.filter fun (_, edge) =>
    edge.label = label && if outgoing then edge.fromNode = nodeId else edge.toNode = nodeId).map fun (edgeId, edge) =>
      (edgeId, { nodeId := if outgoing then edge.toNode else edge.fromNode, edgeId := edgeId })

end Store

/-- `RequestMarker`. -/
structure RequestMarker where
  requestId : String
  operation : String
  target : String × String × String
deriving DecidableEq, Repr

/-- `request_marker`. -/
def requestMarker (requestId operation : String) (target : String × String × String) : Option RequestMarker :=
  if requestId = "" then none else some { requestId := requestId, operation := operation, target := target }

/-- `State`: the store, the markers of the writes that have landed, and what the tests script. -/
structure State where
  store : Store
  appliedRequests : Finset RequestMarker
  failures : String → List Code
  acceptedTokens : Option (Finset String)
  downloadChunkFailure : Option (Nat × Code)
  uploadRejectBeforeReading : Option Code

namespace State

/-- `State::default`. -/
def default : State :=
  { store := .empty, appliedRequests := ∅, failures := fun _ => [], acceptedTokens := none, downloadChunkFailure := none,
    uploadRejectBeforeReading := none }

/-- `absorbs_replay`. -/
def absorbsReplay (s : State) (marker : Option RequestMarker) : Bool := marker.any fun marker => marker ∈ s.appliedRequests

/-- `mark_applied`. -/
def markApplied (s : State) (marker : Option RequestMarker) : State :=
  match marker with
  | some marker => { s with appliedRequests := insert marker s.appliedRequests }
  | none => s

/-! ## What every call passes first -/

/-- Whether the tokens that are accepted leave out the one a call carries. -/
def rejectsToken (s : State) (authorization : Option String) : Bool :=
  s.acceptedTokens.any fun accepted => !authorization.any fun header => header ∈ accepted

/-- `enter`: a token that is not accepted is rejected before a scripted failure is consumed. -/
def enter (rpc : String) (authorization : Option String) (s : State) : Except Status Unit × State :=
  if s.rejectsToken authorization then
    (.error (status .unauthenticated (rpc ++ " rejected: the bearer token is not accepted")), s)
  else
    match s.failures rpc with
    | code :: rest =>
      (.error (status code ("scripted " ++ rpc ++ " failure")), { s with failures := Function.update s.failures rpc rest })
    | [] => (.ok (), s)

/-- What a call is answered that goes on after `enter`. -/
def entering {α : Type} (rpc : String) (authorization : Option String) (body : State → Except Status α × State) (s : State) :
    Except Status α × State :=
  match s.enter rpc authorization with
  | (.error e, s) => (.error e, s)
  | (.ok (), s) => body s

/-- What every write does with the store locked: it absorbs a replay, and otherwise checks the request, registers the tenant,
stores what is to be stored, and marks the request last. -/
def write (marker : Option RequestMarker) (tenantId : String) (check : Store → Except Status Unit) (put : Store → Store)
    (s : State) : Except Status Unit × State :=
  if s.absorbsReplay marker then (.ok (), s)
  else
    match check s.store with
    | .error e => (.error e, s)
    | .ok () => (.ok (), { s with store := put (s.store.register tenantId) }.markApplied marker)

/-- What a read does: it answers from the store. -/
def read {α : Type} (rpc : String) (authorization : Option String) (answer : Store → Except Status α) (s : State) :
    Except Status α × State :=
  s.entering rpc authorization fun s => (answer s.store, s)

end State

/-! ## Pagination -/

/-- `DEFAULT_SERVER_PAGE_SIZE`. -/
def defaultServerPageSize : UInt32 := 50

/-- `paginate`, of entries in their order. A string's `Debug` form is a parameter. The cursor of the next page is the key of the
last entry of this one, and is empty on the last page. -/
def paginate {α : Type} (debug : String → String) (entries : List (String × α)) (page : Option PageRequest) :
    Except Status (List α × String) :=
  let limit := (page.bind PageRequest.limit).getD defaultServerPageSize
  let cursor := (page.map PageRequest.cursor).getD ""
  if limit = 0 then .error (invalidArgument "page limit must be greater than zero")
  else
    let start :=
      if cursor = "" then some 0 else (entries.findIdx? fun entry => entry.1 = cursor).map fun index => index + 1
    match start with
    | none => .error (invalidArgument ("unknown page cursor " ++ debug cursor))
    | some start =>
      let stop := min (start + limit.toNat) entries.length
      let nextCursor := if stop < entries.length then ((entries[stop - 1]?).map Prod.fst).getD "" else ""
      .ok (((entries.drop start).take (stop - start)).map Prod.snd, nextCursor)

/-- What every listing answers: the page of its entries, with the page message. -/
def listing {α : Type} (debug : String → String) (entries : List (String × α)) (page : Option PageRequest) :
    Except Status (ListingResponse α) :=
  (paginate debug entries page).map fun (items, nextCursor) => { items := items, page := some { nextCursor := nextCursor } }

end Server

end RociaSdk
