import RociaSdk.HostedBatch
import RociaSdk.Writes

/-!
# Calls on the wire

The writes of the client as programs, against the server of the tests. A call sends its messages, possibly twice; what has been sent
reaches the server late, several times or never, and others use the server at the same time. The server is given by the events there
have been since some state.
-/

namespace RociaSdk

open Interleave

namespace Server

variable {Req : Type}

/-! ## What is sent and what is acknowledged -/

/-- The message an entry of a record sent. -/
def sent? : Entry Req Unit → Option Req
  | .sent request _ => some request.message
  | _ => none

/-- The messages a record has sent. -/
def sentIn (history : List (Entry Req Unit)) : List Req := history.filterMap sent?

/-- The server has acknowledged a call at some moment of the events. -/
def Acknowledged (server : State) (events : List Event) (call : WriteCall) : Prop :=
  ∃ before authorization after, events = before ++ .call authorization call :: after ∧
    (call.handle authorization (server.run before)).1 = .ok ()

/-- Of the calls that have landed, those under the markers of these. -/
def State.landedUnder (server : State) (calls : List WriteCall) (events : List Event) : List WriteCall :=
  (server.landed events).filter fun call => call.marker ∈ calls.map WriteCall.marker

/-! ## The wire -/

/-- What a call shares with the server: the manager and the record of what it has sent, and the events there have been. -/
structure Wired (Req : Type) where
  shared : Shared Req Unit
  events : List Event

namespace Wired

/-- What everything else can do: steps of the manager, and events at the server. A message that has been sent is delivered, however
late and with whatever token, any number of times. The other events are not calls under the markers of the messages of the script. -/
def env (write : Req → WriteCall) (script : List Req) (s t : Wired Req) : Prop :=
  s.shared.env t.shared ∧ ∃ events, t.events = s.events ++ events ∧ ∀ event ∈ events,
    (∃ message ∈ sentIn s.shared.history, ∃ authorization, event = .call authorization (write message)) ∨
      event.Spares (fun message => (write message).marker) script

/-- Whether an operation's answer is an acknowledgement. -/
def Acknowledges : (op : Op Req) → Ans Req Unit op → Prop
  | .answer, answer => answer = .ok ()
  | .answerWithin _, answer => answer = some (.ok ())
  | _, _ => False

/-- What an operation of a call can do: an acknowledgement reaches it only if the server has acknowledged the message sent last.
Anything else may reach it at any time, or nothing. -/
def act (client : Client) (server : State) (write : Req → WriteCall) (op : Op Req) (s : Wired Req) (answer : Ans Req Unit op)
    (t : Wired Req) : Prop :=
  client.act op s.shared answer t.shared ∧ t.events = s.events ∧
    (Acknowledges op answer →
      ∃ message, (sentIn s.shared.history).getLast? = some message ∧ Acknowledged server s.events (write message))

end Wired

/-- What UUID an operation that draws one may draw: any, or the one that is fixed. -/
def Draws {Resp : Type} (fixed : Option String) : (op : Op Req) → Ans Req Resp op → Prop
  | .uuid, answer => ∀ uuid, fixed = some uuid → answer = uuid
  | _, _ => True

/-- What is fixed of the UUIDs that calls draw: for a call with a request id nothing, and for one without it the UUID it draws. -/
def fixedUuid (requestId : Option String) (uuid : String) : Option String :=
  match requestId with
  | some _ => none
  | none => some uuid

/-! ## What calls send -/

/-- An upload as the server reads it when all of it arrives. One that is cut off has no marker. -/
def wholeUpload (messages : List UploadRequest) : WriteCall := .upload { messages := messages, ending := .ok () }

/-- A write of a document, or of the node it is bound to, as a call. -/
def writeCall : Write → WriteCall
  | .putDoc r => .putDoc r
  | .putNode r => .putNode r

/-- The writes of `put_document`, in their order. -/
def documentScript {V : Type} (encoder : Encoder V) (tenantId collection documentId : String) (value : V)
    (binding : Option NodeBinding) (requestId : String) : Result (List Write) := do
  let document ← buildPutDocRequest encoder tenantId collection documentId value requestId
  match binding with
  | none => return [.putDoc document]
  | some binding =>
    let node ← buildNodeBindingRequest encoder tenantId collection documentId binding requestId
    return [.putDoc document, .putNode node]

end Server

end RociaSdk
