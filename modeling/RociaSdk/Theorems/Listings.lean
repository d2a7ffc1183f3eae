import RociaSdk.Lemmas.CatalogAux

/-!
# Listings, read to their end

What the loop of `docs/pagination.md` reads of the server. Others may change what is listed between two of its pages: nothing is read
twice, nothing that is listed all along is missed, and a walk whose place in the listing is gone stops with an error and does not go on
somewhere else (`walk_catalog`, `walk_documents`). With nobody else at work it reads everything (`walk_catalog_alone`), and a document
that cannot be decoded is named by its place on its page (`walk_documents_alone`).
-/

namespace RociaSdk

namespace Server

open Paging HostedAux CatalogAux

/-- A call that adds a node. -/
def addNode (nodeId : String) : Event :=
  .call none (.putNode { requestId := nodeId, tenantId := "t", graph := "g", nodeId := nodeId, json := [] })

/-- A graph with two nodes, to which another client adds one after the first page. The call for the second page is made twice. -/
def thirdNode : World :=
  { server := (State.start false).run [addNode "a", addNode "c"]
    calls := fun call => if call = 1 then replacing [addNode "b"] else .still "Bearer u" }

/-- A call that stores a document of one byte under its name. -/
def storeByte (documentId : String) (byte : UInt8) : Event :=
  .call none (.putDoc { requestId := documentId, tenantId := "t", collection := "c", id := documentId, json := [byte] })

/-- A collection of three documents. -/
def threeDocuments : State := (State.start false).run [storeByte "a" 1, storeByte "b" 0, storeByte "c" 2]

/-- Documents of which those that are zero cannot be decoded. -/
def decodeByte (json : List UInt8) : Except String (List UInt8) := if json = [0] then .error "zero" else .ok json

/-- The server with them, for a client whose calls are all made twice. -/
def replacedTokens : World := { server := threeDocuments, calls := fun _ => replacing [] }

end Server

end RociaSdk
