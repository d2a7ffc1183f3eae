import RociaSdk.Document
import RociaSdk.Lemmas.ReplayRun
import RociaSdk.Lemmas.BatchAux

/-!
# The record of a document write

What a unary call adds to the record, however often it is sent, and what `put_document` adds with a node binding: writes of the
document, and once one of them has been acknowledged, writes of the node.
-/

namespace RociaSdk

open Interleave TokenManager

variable {Req Resp : Type}

/-- All that a record has sent carries one message. -/
def Only (message : Req) (record : List (Entry Req Resp)) : Prop :=
  ∀ request stamp, .sent request stamp ∈ record → request.message = message

/-- A record ends with the acknowledgement of a message it has sent. -/
def Acked (message : Req) (response : Resp) (record : List (Entry Req Resp)) : Prop :=
  ∃ before request stamp completed, record = before ++ [.sent request stamp, .answered (some (.ok response)) completed] ∧
    request.message = message

/-- The request id of a call: the caller's, or one made of the collection and a UUID. -/
def IsRequestId (collection : String) (options : DocumentWriteOptions) (requestId : String) : Prop :=
  match options.requestId with
  | some supplied => requestId = supplied
  | none => ∃ uuid, requestId = defaultDocumentRequestId collection uuid

namespace DocumentAux

open ReplayRun ReplayAux

variable {client : Client} {s t : Shared Req Resp} {message : Req} {operation : String}

/-! ## Unary calls -/

/-- Records with one message only, one after the other. -/
theorem only_append {first rest : List (Entry Req Resp)} (hfirst : Only message first) (hrest : Only message rest) :
    Only message (first ++ rest) := by
  intro request stamp hmem
  rcases List.mem_append.1 hmem with hmem | hmem
  · exact hfirst request stamp hmem
  · exact hrest request stamp hmem

/-- Nothing has been sent. -/
theorem only_nil (message : Req) : Only message ([] : List (Entry Req Resp)) :=
  fun _ _ hmem => absurd hmem List.not_mem_nil

/-- A refresh sends nothing. -/
theorem only_refreshed (message : Req) (answer : Except AuthError Unit) :
    Only message ([.refreshed answer] : List (Entry Req Resp)) := by
  intro request stamp hmem
  cases List.mem_singleton.1 hmem

/-- A message that has been sent. -/
theorem only_sent (message : Req) (timeout : Option Nat) (stamp : Option Token) :
    Only message ([.sent ⟨message, timeout⟩ stamp] : List (Entry Req Resp)) := by
  intro request stamp' hmem
  cases List.mem_singleton.1 hmem
  rfl

/-- A message that has been sent and answered. -/
theorem only_answered (message : Req) (timeout : Option Nat) (stamp : Option Token) (answer : Option (Except Status Resp))
    (completed : Nat) : Only message [.sent ⟨message, timeout⟩ stamp, .answered answer completed] := by
  intro request stamp' hmem
  rcases List.mem_cons.1 hmem with heq | hmem
  · cases heq
    rfl
  · cases List.mem_singleton.1 hmem

/-- An attempt that comes to a response was answered with it. -/
theorem answer_of_ok {timeout : Option Nat} {answer : Option (Except Status Resp)} {response : Resp}
    (h : attemptOutcome operation timeout answer = .ok response) : answer = some (.ok response) := by
  unfold attemptOutcome at h
  split at h
  · cases h
  · split at h
    · cases h
    · cases h
  · cases h
    rfl

/-- What a unary call has added to the record: sends of its message only. -/
def Sending (message : Req) (s t : Shared Req Resp) : Prop := ∃ new, t.history = s.history ++ new ∧ Only message new

/-- What it has added when it returns: if it returns a response, this is what the last of them was answered with. -/
def Sent (message : Req) (s : Shared Req Resp) (result : Result Resp) (t : Shared Req Resp) : Prop :=
  ∃ new, t.history = s.history ++ new ∧ Only message new ∧ ∀ response, result = .ok response → Acked message response new

/-- To send once more. -/
theorem wp_attempt_sending {timeout : Option Nat} (ht : t.Sound) (h : Sending message s t) :
    wp (client.system Req Resp) (Sending message s) (Sent message s) (Client.attempt operation message timeout) t := by
  obtain ⟨new, hnew, honly⟩ := h
  refine wp_attempt (H := fun history => ∃ new, history = s.history ++ new ∧ Only message new) (R := fun _ => True) ht
    ⟨new, hnew, honly⟩ (fun _ _ _ => trivial) ?_ ?_
  · intro stamp _
    exact ⟨new ++ [.sent ⟨message, timeout⟩ stamp], by rw [hnew, List.append_assoc], only_append honly (only_sent message timeout stamp)⟩
  · intro stamp answer n u _ _ _ _ hhist
    rw [hnew, List.append_assoc] at hhist
    have hall := only_append honly (only_answered message timeout stamp answer n)
    refine ⟨⟨_, hhist, hall⟩, _, hhist, hall, ?_⟩
    intro response hresponse
    rw [answer_of_ok hresponse]
    exact ⟨new, ⟨message, timeout⟩, stamp, n, rfl, rfl⟩

/-- A unary call sends its message only, and what it returns is what the last of these was answered with. -/
theorem wp_unary (hi : s.Sound) :
    wp (client.system Req Resp) (Sending message s) (Sent message s) (client.unary operation message) s := by
  have hstart : Sending message s s := ⟨[], (List.append_nil _).symm, only_nil message⟩
  have hkept : ∀ {t u : Shared Req Resp}, t.env u → Sending message s t → Sending message s u := by
    rintro t u htu ⟨new, hnew, honly⟩
    exact ⟨new, htu.1.trans hnew, honly⟩
  have hreturns : ∀ {t : Shared Req Resp} {result : Result Resp}, Sent message s result t →
      wp (client.system Req Resp) (Sending message s) (Sent message s) (pure result) t := by
    rintro t result ⟨new, hnew, honly, hacked⟩
    exact wp_ret fun u htu _ => ⟨⟨new, htu.1.trans hnew, honly⟩, new, htu.1.trans hnew, honly, hacked⟩
  have hfails : ∀ {t : Shared Req Resp} {error : RociaDbError}, Sending message s t → Sent message s (.error error) t := by
    rintro t error ⟨new, hnew, honly⟩
    exact ⟨new, hnew, honly, nofun⟩
  unfold Client.unary Client.attemptWithReplay
  refine wp_bind hi (wp.mono (wp_attempt_sending hi hstart) (fun _ _ h => h) ?_)
  intro result t ht hsent
  cases result with
  | ok response => exact hreturns hsent
  | error error =>
    obtain ⟨new, hnew, honly, _⟩ := hsent
    have hsending : Sending message s t := ⟨new, hnew, honly⟩
    cases hauth : client.authEnabled with
    | false => exact hreturns (hfails hsending)
    | true =>
      refine wp_bind ht (wp_refreshForReplay (H := fun history => ∃ new, history = s.history ++ new ∧ Only message new) ht
        hsending ?_ ?_)
      · intro _ u htu hu
        exact hreturns (hfails (hkept htu hsending))
      · intro _ _ answer u hu _ hhist _
        rw [hnew, List.append_assoc] at hhist
        have hsending' : Sending message s u := ⟨_, hhist, only_append honly (only_refreshed message answer)⟩
        refine ⟨hsending', ?_⟩
        cases answer with
        | ok _ => exact wp_attempt_sending hu hsending'
        | error e => exact hreturns (hfails hsending')

/-! ## Two writes -/

/-- The records of a document write with a node binding: writes of the document, and writes of the node after one of them has
been acknowledged. -/
inductive Script (document node : Write) : List (Entry Write Unit) → Prop where
  | document (record : List (Entry Write Unit)) (h : Only document record) : Script document node record
  | node (first rest : List (Entry Write Unit)) (hfirst : Only document first) (hacked : Acked document () first)
      (hrest : Only node rest) : Script document node (first ++ rest)

/-- The record of a document write that has returned `Ok`: both writes were acknowledged, the document's before the node was
sent. -/
def Complete (document node : Write) (record : List (Entry Write Unit)) : Prop :=
  ∃ first rest, record = first ++ rest ∧ Only document first ∧ Acked document () first ∧ Only node rest ∧ Acked node () rest

variable {V : Type} {encoder : Encoder V} {tenantId collection documentId requestId : String} {value : V}
  {binding : NodeBinding} {options : DocumentWriteOptions} {s t : Shared Write Unit}

/-- Drawing the request id leaves no record. -/
theorem wp_documentRequestId (hi : s.Sound) :
    wp (client.system Write Unit) (fun t => t.history = s.history)
      (fun requestId t => IsRequestId collection options requestId ∧ t.history = s.history)
      (Client.documentRequestId collection options) s := by
  unfold Client.documentRequestId IsRequestId
  cases options.requestId with
  | some supplied => exact wp_ret fun t hst _ => ⟨hst.1, rfl, hst.1⟩
  | none =>
    refine wp_bind hi (wp_perform fun t hst _ => ⟨hst.1, ?_⟩)
    rintro uuid _ rfl v htv hv
    exact ⟨htv.1.trans hst.1, wp_ret fun w hvw _ =>
      ⟨hvw.1.trans (htv.1.trans hst.1), ⟨uuid, rfl⟩, hvw.1.trans (htv.1.trans hst.1)⟩⟩

/-- What is left of `put_document` with a node binding once its request id is there. -/
def putWrites (client : Client) (encoder : Encoder V) (tenantId collection documentId : String) (value : V)
    (binding : NodeBinding) (requestId : String) : Call Write Unit (Result Unit) :=
  match transpose ((some binding).map fun binding =>
      buildNodeBindingRequest encoder tenantId collection documentId binding requestId) with
  | .error e => return .error e
  | .ok nodeRequest =>
    match buildPutDocRequest encoder tenantId collection documentId value requestId with
    | .error e => return .error e
    | .ok request => do
      match ← client.unary "failed to upsert document" (.putDoc request) with
      | .error e => return .error e
      | .ok () =>
        match nodeRequest with
        | none => return .ok ()
        | some nodeRequest =>
          match ← client.unary "failed to upsert graph node binding" (.putNode nodeRequest) with
          | .error e => return .error e
          | .ok () => return .ok ()

theorem putDocument_eq (hbinding : options.nodeBinding = some binding) :
    client.putDocument encoder tenantId collection documentId value options =
      (Client.documentRequestId collection options >>= putWrites client encoder tenantId collection documentId value binding) := by
  unfold Client.putDocument
  rw [hbinding]
  rfl

/-- If both requests can be built, the two writes follow the script. -/
theorem wp_putWrites (hi : s.Sound) {document : PutDocRequest} {node : PutNodeRequest}
    (hdocument : buildPutDocRequest encoder tenantId collection documentId value requestId = .ok document)
    (hnode : buildNodeBindingRequest encoder tenantId collection documentId binding requestId = .ok node) :
    wp (client.system Write Unit)
      (fun t => ∃ new, t.history = s.history ++ new ∧ Script (.putDoc document) (.putNode node) new)
      (fun result t => ∃ new, t.history = s.history ++ new ∧ Script (.putDoc document) (.putNode node) new ∧
        (result = .ok () → Complete (.putDoc document) (.putNode node) new))
      (putWrites client encoder tenantId collection documentId value binding requestId) s := by
  have hbody : putWrites client encoder tenantId collection documentId value binding requestId = (do
      match ← client.unary "failed to upsert document" (.putDoc document) with
      | .error e => return .error e
      | .ok () =>
        match ← client.unary "failed to upsert graph node binding" (.putNode node) with
        | .error e => return .error e
        | .ok () => return .ok ()) := by
    simp only [putWrites, Option.map_some, hnode, hdocument, transpose]
  rw [hbody]
  refine wp_bind hi (wp.mono (wp_unary hi) ?_ ?_)
  · rintro t _ ⟨new, hnew, honly⟩
    exact ⟨new, hnew, .document new honly⟩
  intro result t ht hsent
  obtain ⟨first, hfirst, honly, hacked⟩ := hsent
  cases result with
  | error e =>
    exact wp_ret fun u htu _ => ⟨⟨first, htu.1.trans hfirst, .document first honly⟩,
      first, htu.1.trans hfirst, .document first honly, nofun⟩
  | ok _ =>
    have hacked := hacked () rfl
    refine wp_bind ht (wp.mono (wp_unary ht) ?_ ?_)
    · rintro u _ ⟨rest, hrest, honly'⟩
      exact ⟨first ++ rest, by rw [hrest, hfirst, List.append_assoc], .node first rest honly hacked honly'⟩
    intro result u hu hsent
    obtain ⟨rest, hrest, honly', hacked'⟩ := hsent
    rw [hfirst, List.append_assoc] at hrest
    have hscript : Script (.putDoc document) (.putNode node) (first ++ rest) := .node first rest honly hacked honly'
    cases result with
    | error e =>
      exact wp_ret fun v huv _ => ⟨⟨_, huv.1.trans hrest, hscript⟩, _, huv.1.trans hrest, hscript, nofun⟩
    | ok _ =>
      have hcomplete : Complete (.putDoc document) (.putNode node) (first ++ rest) :=
        ⟨first, rest, rfl, honly, hacked, honly', hacked' () rfl⟩
      exact wp_ret fun v huv _ =>
        ⟨⟨_, huv.1.trans hrest, hscript⟩, _, huv.1.trans hrest, hscript, fun _ => hcomplete⟩

/-- If one of the two requests cannot be built, nothing is sent. -/
theorem wp_putWrites_refused
    (h : (∃ e, buildPutDocRequest encoder tenantId collection documentId value requestId = .error e) ∨
      ∃ e, buildNodeBindingRequest encoder tenantId collection documentId binding requestId = .error e) :
    wp (client.system Write Unit) (fun t => t.history = s.history)
      (fun result t => (∃ e, result = .error e) ∧ t.history = s.history)
      (putWrites client encoder tenantId collection documentId value binding requestId) s := by
  have hbody : ∃ e, putWrites client encoder tenantId collection documentId value binding requestId = pure (.error e) := by
    cases hnode : buildNodeBindingRequest encoder tenantId collection documentId binding requestId with
    | error e => exact ⟨e, by simp only [putWrites, Option.map_some, hnode, transpose]⟩
    | ok node =>
      rcases h with ⟨e, he⟩ | ⟨e, he⟩
      · exact ⟨e, by simp only [putWrites, Option.map_some, hnode, he, transpose]⟩
      · rw [hnode] at he
        cases he
  obtain ⟨e, he⟩ := hbody
  rw [he]
  exact wp_ret fun t hst _ => ⟨hst.1, ⟨e, rfl⟩, hst.1⟩

/-- What a call of `put_document` with a node binding has added to the record, wherever it has come to. -/
def Recorded (encoder : Encoder V) (tenantId collection documentId : String) (value : V) (binding : NodeBinding)
    (options : DocumentWriteOptions) (record : List (Entry Write Unit)) : Prop :=
  ∃ requestId, IsRequestId collection options requestId ∧
    ((∃ document node, buildPutDocRequest encoder tenantId collection documentId value requestId = .ok document ∧
      buildNodeBindingRequest encoder tenantId collection documentId binding requestId = .ok node ∧
      Script (.putDoc document) (.putNode node) record) ∨
    (((∃ e, buildPutDocRequest encoder tenantId collection documentId value requestId = .error e) ∨
      ∃ e, buildNodeBindingRequest encoder tenantId collection documentId binding requestId = .error e) ∧ record = []))

/-- What it has added when it returns `Ok`. -/
def Done (encoder : Encoder V) (tenantId collection documentId : String) (value : V) (binding : NodeBinding)
    (options : DocumentWriteOptions) (record : List (Entry Write Unit)) : Prop :=
  ∃ requestId document node, IsRequestId collection options requestId ∧
    buildPutDocRequest encoder tenantId collection documentId value requestId = .ok document ∧
    buildNodeBindingRequest encoder tenantId collection documentId binding requestId = .ok node ∧
    Complete (.putDoc document) (.putNode node) record

/-- Both requests can be built, or one cannot. -/
theorem built_or_refused (encoder : Encoder V) (tenantId collection documentId : String) (value : V) (binding : NodeBinding)
    (requestId : String) :
    (∃ document node, buildPutDocRequest encoder tenantId collection documentId value requestId = .ok document ∧
      buildNodeBindingRequest encoder tenantId collection documentId binding requestId = .ok node) ∨
    ((∃ e, buildPutDocRequest encoder tenantId collection documentId value requestId = .error e) ∨
      ∃ e, buildNodeBindingRequest encoder tenantId collection documentId binding requestId = .error e) := by
  cases hdocument : buildPutDocRequest encoder tenantId collection documentId value requestId with
  | error e => exact .inr (.inl ⟨e, rfl⟩)
  | ok document =>
    cases hnode : buildNodeBindingRequest encoder tenantId collection documentId binding requestId with
    | error e => exact .inr (.inr ⟨e, rfl⟩)
    | ok node => exact .inl ⟨document, node, rfl, rfl⟩

/-- A request id of the call, for a record in which nothing has been sent yet. -/
theorem recorded_nil (encoder : Encoder V) (tenantId collection documentId : String) (value : V) (binding : NodeBinding)
    (options : DocumentWriteOptions) : Recorded encoder tenantId collection documentId value binding options [] := by
  have hid : ∃ requestId, IsRequestId collection options requestId := by
    unfold IsRequestId
    cases options.requestId with
    | some supplied => exact ⟨supplied, rfl⟩
    | none => exact ⟨_, "", rfl⟩
  obtain ⟨requestId, hid⟩ := hid
  refine ⟨requestId, hid, ?_⟩
  rcases built_or_refused encoder tenantId collection documentId value binding requestId with
    ⟨document, node, hdocument, hnode⟩ | hrefused
  · exact .inl ⟨document, node, hdocument, hnode, .document [] (only_nil _)⟩
  · exact .inr ⟨hrefused, rfl⟩

/-- What `put_document` with a node binding adds to the record. -/
theorem wp_putDocument (hi : s.Sound) (hbinding : options.nodeBinding = some binding) :
    wp (client.system Write Unit)
      (fun t => ∃ new, t.history = s.history ++ new ∧
        Recorded encoder tenantId collection documentId value binding options new)
      (fun result t => ∃ new, t.history = s.history ++ new ∧
        Recorded encoder tenantId collection documentId value binding options new ∧
        (result = .ok () → Done encoder tenantId collection documentId value binding options new))
      (client.putDocument encoder tenantId collection documentId value options) s := by
  have hnothing : ∀ {t : Shared Write Unit}, t.history = s.history → ∃ new, t.history = s.history ++ new ∧
      Recorded encoder tenantId collection documentId value binding options new := fun h =>
    ⟨[], h.trans (List.append_nil _).symm, recorded_nil ..⟩
  rw [putDocument_eq hbinding]
  refine wp_bind hi (wp.mono (wp_documentRequestId hi) (fun t _ h => hnothing h) ?_)
  intro requestId t ht hid
  obtain ⟨hid, hhist⟩ := hid
  rcases built_or_refused encoder tenantId collection documentId value binding requestId with
    ⟨document, node, hdocument, hnode⟩ | hrefused
  · refine wp.mono (wp_putWrites ht hdocument hnode) ?_ ?_
    · rintro u _ ⟨new, hnew, hscript⟩
      exact ⟨new, by rw [hnew, hhist], requestId, hid, .inl ⟨document, node, hdocument, hnode, hscript⟩⟩
    · rintro result u _ ⟨new, hnew, hscript, hcomplete⟩
      exact ⟨new, by rw [hnew, hhist], ⟨requestId, hid, .inl ⟨document, node, hdocument, hnode, hscript⟩⟩,
        fun hok => ⟨requestId, document, node, hid, hdocument, hnode, hcomplete hok⟩⟩
  · refine wp.mono (wp_putWrites_refused hrefused) (fun u _ h => hnothing (h.trans hhist)) ?_
    rintro result u _ ⟨⟨e, rfl⟩, hsame⟩
    obtain ⟨new, hnew, hrecorded⟩ := hnothing (hsame.trans hhist)
    exact ⟨new, hnew, hrecorded, nofun⟩

end DocumentAux

end RociaSdk
