import RociaSdk.Lemmas.HostedAux
import RociaSdk.Lemmas.StoreAux

/-!
# What reads return

A document, a node or an edge is what the last call that landed for it has left, decoded; if there is none, or it has removed what was
there, the read is told so. `saysDocument` and its kind name what a call says of one row; a replay and a call that is refused say nothing,
for they do not land.
-/

namespace RociaSdk

namespace Server

namespace WriteCall

variable (scope : String × String) (id : String)

/-- What a call says of a document: that it is there so, or that it is not there. -/
def saysDocument : WriteCall → Option (Option (List UInt8))
  | putDoc r => if (r.tenantId, r.collection) = scope ∧ r.id = id then some (some r.json) else none
  | deleteDoc r => if (r.tenantId, r.collection) = scope ∧ r.id = id then some none else none
  | _ => none

/-- What a call says of a node. -/
def saysNode : WriteCall → Option (Option (List UInt8))
  | putNode r => if (r.tenantId, r.graph) = scope ∧ r.nodeId = id then some (some r.json) else none
  | _ => none

/-- What a call says of an edge. -/
def saysEdge : WriteCall → Option (Option StoredEdge)
  | addEdge r => if (r.tenantId, r.graph) = scope ∧ r.edgeId = id then some (some r.edge) else none
  | deleteEdge r => if (r.tenantId, r.graph) = scope ∧ r.edgeId = id then some none else none
  | _ => none

end WriteCall

/-- What the last of some calls that says something says. -/
def lastSaid {α : Type} (word : WriteCall → Option α) (calls : List WriteCall) : Option α := calls.reverse.findSome? word

/-- What a read comes to that finds a row or does not. -/
def found {α β : Type} (operation what : String) (decode : α → Result β) : Option α → Result β
  | some row => decode row
  | none => .error (.status operation (notFound (what ++ " not found")))

namespace ReadAux

open HostedAux StoreAux

variable {scope : String × String} {id : String} {call : WriteCall} {store store' : Store}

/-- A view of the store shows, after a run, what the last call that landed and says something of it has said. -/
theorem run_view {α : Type} (view : Store → α) (word : WriteCall → Option α)
    (happly : ∀ call store store', writes.apply call store = .ok store' → view store' = (word call).getD (view store))
    (s : State) (events : List Event) : view (s.run events).store = (lastSaid word (s.landed events)).getD (view s.store) := by
  obtain ⟨hserve, hlanded⟩ := run_marked s events
  have hplain := Absorbing.Service.plain_landed writes s.marked (s.landed events)
  rw [hserve, hlanded] at hplain
  exact Absorbing.Service.plain_view view word happly hplain

theorem view_upload {α : Type} {stream : UploadStream} (view : Store → α)
    (h : ∀ head bytes, view (Store.upload head bytes (store.register (WriteCall.upload stream).tenantId)) = view store)
    (hregister : view (store.register (WriteCall.upload stream).tenantId) = view store) :
    view ((WriteCall.upload stream).put (store.register (WriteCall.upload stream).tenantId)) = view store := by
  simp only [WriteCall.put]
  cases WriteCall.uploaded stream with
  | none => exact hregister
  | some drained => exact h drained.1 drained.2

theorem document_apply (h : writes.apply call store = .ok store') :
    store'.documents.find? scope id = (call.saysDocument scope id).getD (store.documents.find? scope id) := by
  rw [apply_eq h]
  cases call with
  | putDoc r =>
    simp only [WriteCall.put, Store.putDoc, WriteCall.saysDocument, Table.find?_put]
    split <;> rfl
  | deleteDoc r =>
    simp only [WriteCall.put, Store.deleteDoc, WriteCall.saysDocument, Table.find?_remove]
    split <;> rfl
  | upload stream => exact view_upload (fun store => store.documents.find? scope id) (fun _ _ => rfl) rfl
  | putNode r => rfl
  | addEdge r => rfl
  | deleteEdge r => rfl
  | delete r => rfl

theorem node_apply (h : writes.apply call store = .ok store') :
    store'.nodes.find? scope id = (call.saysNode scope id).getD (store.nodes.find? scope id) := by
  rw [apply_eq h]
  cases call with
  | putNode r =>
    simp only [WriteCall.put, Store.putNode, WriteCall.saysNode, Table.find?_put]
    split <;> rfl
  | upload stream => exact view_upload (fun store => store.nodes.find? scope id) (fun _ _ => rfl) rfl
  | putDoc r => rfl
  | deleteDoc r => rfl
  | addEdge r => rfl
  | deleteEdge r => rfl
  | delete r => rfl

theorem edge_apply (h : writes.apply call store = .ok store') :
    store'.edges.find? scope id = (call.saysEdge scope id).getD (store.edges.find? scope id) := by
  rw [apply_eq h]
  cases call with
  | addEdge r =>
    simp only [WriteCall.put, Store.addEdge, WriteCall.saysEdge, Table.find?_put]
    split <;> rfl
  | deleteEdge r =>
    simp only [WriteCall.put, Store.deleteEdge, WriteCall.saysEdge, Table.find?_remove]
    split <;> rfl
  | upload stream => exact view_upload (fun store => store.edges.find? scope id) (fun _ _ => rfl) rfl
  | putDoc r => rfl
  | deleteDoc r => rfl
  | putNode r => rfl
  | delete r => rfl

/-- A read of a row that is let in, of a server that others have been at work on. -/
theorem read_found {Req α β : Type} {rpc operation what : String} {client : Client}
    {handler : Option String → Req → State → Except Status α × State} {request : Req} {world : World} {row : Store → Option α}
    (hhandler : Reads handler request rpc fun store => rowOr what (row store)) (decode : α → Result β)
    (word : WriteCall → Option (Option α))
    (happly : ∀ call store store', writes.apply call store = .ok store' → row store' = (word call).getD (row store))
    (hopen : world.Admits client rpc) :
    (readDecoded (hosted client handler) operation request decode world).1 =
      found operation what decode
        ((lastSaid word (world.server.landed (world.before client rpc))).getD (row world.server.store)) := by
  have hrow := run_view row word happly world.server (world.before client rpc)
  rw [read_let_in operation hhandler decode hopen, ← hrow]
  show (statusContext operation (rowOr what (row (world.arrived client rpc).store))).bind decode =
    found operation what decode (row (world.arrived client rpc).store)
  cases row (world.arrived client rpc).store <;> rfl

end ReadAux

open ReadAux HostedAux

/-- A call that stores a document of one byte. -/
def putByte (authorization : Option String) (documentId : String) (byte : UInt8) : Event :=
  .call authorization (.putDoc { requestId := "", tenantId := "t", collection := "c", id := documentId, json := [byte] })

/-- A document that others write again before each of two attempts to read it, the first of which has a token that is not accepted. -/
def overwritten : World where
  server := (State.start false).run [putByte none "a" 1]
  calls _ := { replacing [] with
    others := fun attempt =>
      if attempt = 0 then [putByte none "a" 2, .acceptOnlyTokens {"u"}]
      else [putByte (some "Bearer u") "a" 3, putByte (some "Bearer u") "b" 4, putByte (some "Bearer t") "a" 5] }

end Server

end RociaSdk
