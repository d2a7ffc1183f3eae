import RociaSdk.Error
import RociaSdk.Lib.UriText

/-!
# The upstream host

`validate_host_path` (`lib.rs`), which `RociaDbBuilder::build` calls before it dials. The parser of the `http` crate is a
parameter, and so is a string's `Debug` form; `Uri.ofText` is what the accessors are taken to say of a text that parses.
-/

namespace RociaSdk

/-- An `http::Uri`, by the accessors that are read: `path()` and `query()`. -/
structure Uri where
  path : String
  query : Option String
deriving DecidableEq, Repr

/-- The path and the query of a text, split as RFC 3986 does; behind a scheme an empty path is the root, and the fragment is
dropped. -/
def Uri.ofText (text : String) : Uri :=
  let parts := UriText.split text.toList
  { path := if parts.path = [] ∧ parts.scheme.isSome then "/" else String.ofList parts.path
    query := parts.query.map String.ofList }

/-- What `validate_host_path` reports about a host that carries more than it should. -/
def moreThanHost (what : String) : RociaDbError :=
  .config ("RociaDB host must contain only a hostname and port, got " ++ what) none

/-- `validate_host_path`. -/
def validateHostPath (debug : String → String) (parse : String → Except String Uri) (host : String) : Result Unit :=
  if '#' ∈ host.toList then .error (moreThanHost ("a fragment in " ++ debug host))
  else
    match configContext "invalid upstream host" (parse host) with
    | .error error => .error error
    | .ok uri =>
      if uri.path ≠ "" ∧ uri.path ≠ "/" then .error (moreThanHost ("path " ++ debug uri.path))
      else
        match uri.query with
        | some query => .error (moreThanHost ("query " ++ debug query))
        | none => .ok ()

end RociaSdk
