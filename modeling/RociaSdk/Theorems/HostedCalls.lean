import RociaSdk.Lemmas.HostedCallsAux

/-!
# The writes of the client on the wire

Every write of the client lands at most once, and once if the call returns `Ok`: though it may be sent twice when its token is
refreshed, though the caller makes it again until it returns, and however late and often what was sent is delivered.
-/

namespace RociaSdk

open Interleave TokenManager

namespace Server

/-- The writes of a call land in the order of the script. They can be told apart by their markers, none of which was applied before and
under none of which others write. A call with a request id of the caller's is made again and again until it returns `Ok`; one without it
is made once, and `uuid` is the UUID it draws: made again it would draw another. -/
def WritesInOrder {Req : Type} (client : Client) (server : State) (requestId : Option String) (uuid : String)
    (write : Req → WriteCall) (call : Call Req Unit (Result Unit)) (script : List Req) : Prop :=
  ∀ (m : TokenManager) (s t : Wired Req) (left : Call Req Unit (Result Unit)), m.Reachable →
    Markable server (fun message => (write message).marker) script →
    Repeats (Wired.system client server (fixedUuid requestId uuid) write script) call (.ok ()) ⟨⟨m, []⟩, []⟩ s →
    (requestId = none → s = ⟨⟨m, []⟩, []⟩) →
    Runs (Wired.system client server (fixedUuid requestId uuid) write script) call s left t →
      server.landedUnder (script.map write) t.events <+: script.map write ∧
        (left = pure (.ok ()) → server.landedUnder (script.map write) t.events = script.map write)

namespace HostedCallsAux

open DocumentAux ReplayRun HostedBatchAux

variable {Req V : Type} {client : Client} {server : State} {fixed : Option String} {uuid : String} {script : List Req} {message : Req}

/-! ## One message -/

/-- A call that sends one message only, and returns `Ok` when that is acknowledged, follows the script of it. -/
theorem follows_of_sent {call : Call Req Unit (Result Unit)}
    (h : ∀ s : Shared Req Unit, s.Sound → wp (client.system Req Unit) (Sending message s) (Sent message s) call s) :
    Follows client fixed call [message] := by
  intro s hs
  refine ((h s hs).mono ?_ ?_).restrict (fun _ _ _ _ hact => hact.1) (fun _ _ henv => henv) (fun _ hi => hi)
  · rintro t - ⟨new, hnew, honly⟩
    exact ⟨new, hnew, keeps_of_only honly⟩
  · rintro result t - ⟨new, hnew, honly, hacked⟩
    refine ⟨new, hnew, keeps_of_only honly, ?_⟩
    intro hok x hx
    rw [List.mem_singleton.1 hx]
    exact ⟨new, List.prefix_refl _, hacked () hok⟩

/-- A unary call follows the script of its message. -/
theorem follows_unary (operation : String) (message : Req) : Follows client fixed (client.unary operation message) [message] :=
  follows_of_sent fun _ hs => wp_unary hs

/-- A call that settles its request id first follows the script it has under that. -/
theorem follows_requestId (requestId : Option String) (default : String → String) {k : String → Call Req Unit (Result Unit)}
    (h : Follows client (fixedUuid requestId uuid) (k (requestId.getD (default uuid))) script) :
    Follows client (fixedUuid requestId uuid) (Client.writeRequestId requestId default >>= k) script := by
  intro s hs
  cases requestId with
  | some supplied => exact h s hs
  | none =>
    have hnothing : ∀ t : Shared Req Unit, t.history = s.history → ∃ new, t.history = s.history ++ new ∧ Keeps script new :=
      fun t hhist => ⟨[], by rw [hhist, List.append_nil], keeps_nil script⟩
    refine wp_bind hs (wp_bind hs (wp_perform fun t hst _ => ⟨hnothing t hst.1, ?_⟩))
    rintro drawn u ⟨rfl, hdrawn⟩ v huv hv
    obtain rfl : drawn = uuid := hdrawn uuid rfl
    have hhist : v.history = s.history := huv.1.trans hst.1
    refine ⟨hnothing v hhist, wp_ret fun w hvw hw => ?_⟩
    have hhist : w.history = s.history := hvw.1.trans hhist
    have hrest := h w hw
    rw [hhist] at hrest
    exact ⟨hnothing w hhist, hrest⟩

/-! ## Uploads -/

/-- A refresh before a stream sends nothing. -/
theorem only_refreshes (message : Req) (pre : Option (Except AuthError Unit)) :
    Only message (refreshes pre : List (Entry Req Unit)) := by
  cases pre with
  | none => exact only_nil message
  | some answer => exact only_refreshed message answer

/-- To send an upload once more. -/
theorem wp_uploadRaw_sending {s t : Shared (List UploadRequest) Unit} {requests : List UploadRequest} (ht : t.Sound)
    (h : Sending requests s t) :
    wp (client.system (List UploadRequest) Unit) (Sending requests s)
      (fun answer u => ∃ new, u.history = s.history ++ new ∧ Only requests new ∧ (answer = .ok () → Acked requests () new))
      (client.uploadRaw requests) t := by
  obtain ⟨new, hnew, honly⟩ := h
  have hpre : ∀ pre, Only requests (new ++ refreshes pre) := fun pre => only_append honly (only_refreshes requests pre)
  refine wp_uploadRaw (H := fun history => ∃ new, history = s.history ++ new ∧ Only requests new) (R := fun _ => True) ht ?_
    (fun _ _ _ => trivial) ?_ ?_
  · intro pre
    exact ⟨_, by rw [hnew, List.append_assoc], hpre pre⟩
  · intro pre stamp _
    exact ⟨_, by rw [hnew, List.append_assoc, List.append_assoc], only_append honly
      (only_append (only_refreshes requests pre) (only_sent requests none stamp))⟩
  · intro pre stamp answer n u _ _ _ _ hhist
    have hall : Only requests (new ++ refreshes pre ++ [.sent ⟨requests, none⟩ stamp, .answered (some answer) n]) :=
      only_append (hpre pre) (only_answered requests none stamp (some answer) n)
    rw [hnew, List.append_assoc, List.append_assoc, ← List.append_assoc new] at hhist
    refine ⟨⟨_, hhist, hall⟩, _, hhist, hall, ?_⟩
    rintro rfl
    exact ⟨new ++ refreshes pre, ⟨requests, none⟩, stamp, n, rfl, rfl⟩

/-- `upload_file` under a request id follows the script of its messages. -/
theorem follows_uploads {requests : List UploadRequest} :
    Follows client fixed (do
      match ← client.uploadRaw requests with
      | .ok () => return .ok ()
      | .error status =>
        let error := RociaDbError.status uploadOperation status
        if !(← client.refreshForReplay error) then return .error error
        else return statusContext uploadOperation (← client.uploadRaw requests)) [requests] := by
  refine follows_of_sent fun s hs => ?_
  have hstart : Sending requests s s := ⟨[], (List.append_nil _).symm, only_nil requests⟩
  have hreturns : ∀ {t : Shared (List UploadRequest) Unit} {result : Result Unit}, Sent requests s result t →
      wp (client.system (List UploadRequest) Unit) (Sending requests s) (Sent requests s) (pure result) t := by
    rintro t result ⟨new, hnew, honly, hacked⟩
    exact wp_ret fun u htu _ => ⟨⟨new, htu.1.trans hnew, honly⟩, new, htu.1.trans hnew, honly, hacked⟩
  refine wp_bind hs (wp.mono (wp_uploadRaw_sending hs hstart) (fun _ _ h => h) ?_)
  rintro answer t ht ⟨new, hnew, honly, hacked⟩
  cases answer with
  | ok u => exact hreturns ⟨new, hnew, honly, fun response _ => hacked rfl⟩
  | error status =>
    refine wp_bind ht (wp_refreshForReplay (H := fun history => ∃ new, history = s.history ++ new ∧ Only requests new) ht
      ⟨new, hnew, honly⟩ ?_ ?_)
    · intro _ u htu _
      exact hreturns ⟨new, htu.1.trans hnew, honly, nofun⟩
    · intro _ _ answer u hu _ hhist _
      rw [hnew, List.append_assoc] at hhist
      have hsending : Sending requests s u := ⟨_, hhist, only_append honly (only_refreshed requests answer)⟩
      refine ⟨hsending, ?_⟩
      cases answer with
      | error e =>
        obtain ⟨more, hmore, honly⟩ := hsending
        exact hreturns ⟨more, hmore, honly, nofun⟩
      | ok _ =>
        refine wp_bind hu (wp.mono (wp_uploadRaw_sending hu hsending) (fun _ _ h => h) ?_)
        rintro answer v hv ⟨more, hmore, honly, hacked⟩
        refine hreturns ⟨more, hmore, honly, ?_⟩
        intro response hok
        exact hacked (statusContext_ok_iff.1 hok)

/-! ## Documents -/

/-- The record of a document write keeps to the script of the document and its node. -/
theorem keeps_of_script {document node : Write} {record : List (Entry Write Unit)} (h : Script document node record) :
    Keeps [document, node] record := by
  have hfirst : ∀ {first : List (Entry Write Unit)} {request : Request Write} {stamp : Option Token}, Only document first →
      .sent request stamp ∈ first → ∀ before : List (Entry Write Unit), ∃ earlier later,
        [document, node] = earlier ++ request.message :: later ∧ ∀ message ∈ earlier, AckedIn message before := by
    intro first request stamp honly hmem before
    exact ⟨[], [node], by rw [honly request stamp hmem]; rfl, nofun⟩
  rintro before request stamp rest hrecord
  cases h with
  | document _ honly => exact hfirst honly (hrecord ▸ List.mem_append_right before (List.mem_cons_self ..)) before
  | node first rest' honly hacked hrest =>
    rcases List.append_eq_append_iff.1 hrecord with ⟨later, rfl, hafter⟩ | ⟨later, rfl, hafter⟩
    · -- The node is sent after the document has been acknowledged.
      refine ⟨[document], [], ?_, ?_⟩
      · rw [hrest request stamp (hafter ▸ List.mem_append_right later (List.mem_cons_self ..))]
        rfl
      · intro message hmessage
        rw [List.mem_singleton.1 hmessage]
        exact ⟨first, List.prefix_append _ _, hacked⟩
    · cases later with
      | nil =>
        rw [List.append_nil] at hacked
        refine ⟨[document], [], ?_, ?_⟩
        · rw [hrest request stamp ((List.nil_append _ ▸ hafter) ▸ List.mem_cons_self ..)]
          rfl
        · intro message hmessage
          rw [List.mem_singleton.1 hmessage]
          exact ⟨before, List.prefix_refl _, hacked⟩
      | cons entry later =>
        rw [List.cons_append, List.cons.injEq] at hafter
        have hmem : .sent request stamp ∈ before ++ entry :: later := by
          rw [hafter.1]
          exact List.mem_append_right before (List.mem_cons_self ..)
        exact hfirst honly hmem before

/-- `put_document` without a binding follows the script of its document. -/
theorem follows_document (operation : String) (document : Write) :
    Follows client fixed (do
      match ← client.unary operation document with
      | .error e => return .error e
      | .ok () => return .ok ()) [document] := by
  refine follows_of_sent fun s hs => wp_bind hs ((wp_unary hs).mono (fun _ _ h => h) ?_)
  rintro result t ht ⟨new, hnew, honly, hacked⟩
  have hreturns : ∀ u, t.env u → Sent document s result u := fun u htu => ⟨new, htu.1.trans hnew, honly, hacked⟩
  cases result with
  | error e => exact wp_ret fun u htu _ => ⟨⟨new, htu.1.trans hnew, honly⟩, hreturns u htu⟩
  | ok _ => exact wp_ret fun u htu _ => ⟨⟨new, htu.1.trans hnew, honly⟩, hreturns u htu⟩

/-- `put_document` follows the script of its writes. -/
theorem follows_putDocument {encoder : Encoder V} {tenantId collection documentId : String} {value : V}
    {options : DocumentWriteOptions} {script : List Write}
    (h : documentScript encoder tenantId collection documentId value options.nodeBinding
      (options.requestId.getD (defaultDocumentRequestId collection uuid)) = .ok script) :
    Follows client (fixedUuid options.requestId uuid) (client.putDocument encoder tenantId collection documentId value options) script := by
  have hid : Client.documentRequestId collection options =
      Client.writeRequestId options.requestId (defaultDocumentRequestId collection) := by
    unfold Client.documentRequestId Client.writeRequestId
    cases options.requestId <;> rfl
  unfold documentScript at h
  cases hdocument : buildPutDocRequest encoder tenantId collection documentId value
      (options.requestId.getD (defaultDocumentRequestId collection uuid)) with
  | error e =>
    rw [hdocument] at h
    cases h
  | ok document =>
    rw [hdocument] at h
    cases hbinding : options.nodeBinding with
    | none =>
      rw [hbinding] at h
      cases h
      unfold Client.putDocument
      rw [hid, hbinding]
      refine follows_requestId _ _ ?_
      simp only [Option.map_none, transpose, hdocument]
      exact follows_document _ _
    | some binding =>
      rw [hbinding] at h
      cases hnode : buildNodeBindingRequest encoder tenantId collection documentId binding
          (options.requestId.getD (defaultDocumentRequestId collection uuid)) with
      | error e =>
        simp only [hnode] at h
        cases h
      | ok node =>
        simp only [hnode] at h
        cases h
        rw [putDocument_eq hbinding, hid]
        refine follows_requestId _ _ fun s hs => ?_
        refine ((wp_putWrites hs hdocument hnode).mono ?_ ?_).restrict (fun _ _ _ _ hact => hact.1) (fun _ _ henv => henv)
          (fun _ hi => hi)
        · rintro t - ⟨new, hnew, hscript⟩
          exact ⟨new, hnew, keeps_of_script hscript⟩
        · rintro result t - ⟨new, hnew, hscript, hcomplete⟩
          refine ⟨new, hnew, keeps_of_script hscript, ?_⟩
          intro hok message hmessage
          obtain ⟨first, rest, rfl, -, hacked, -, before, request, stamp, completed, rfl, hmessage'⟩ := hcomplete hok
          simp only [List.mem_cons, List.not_mem_nil, or_false] at hmessage
          rcases hmessage with rfl | rfl
          · exact ⟨first, List.prefix_append _ _, hacked⟩
          · exact ⟨_, List.prefix_refl _, first ++ before, request, stamp, completed, by simp, hmessage'⟩

end HostedCallsAux

open HostedCallsAux

/-- Every write of the client lands at most once, and once when its call returns `Ok`; `put_document` with a node binding lands the
document first. This holds though a call may send its request twice, though what is sent reaches the server late, several times or
never, though the caller makes a call with a request id of its own again, and whatever others do at the server. -/
theorem client_writes_in_order (client : Client) (server : State) (uuid : String) :
    (∀ (V : Type) (encoder : Encoder V) (tenantId collection documentId : String) (value : V) (options : DocumentWriteOptions)
      (script : List Write),
      documentScript encoder tenantId collection documentId value options.nodeBinding
          (options.requestId.getD (defaultDocumentRequestId collection uuid)) = .ok script →
        WritesInOrder client server options.requestId uuid writeCall
          (client.putDocument encoder tenantId collection documentId value options) script) ∧
    (∀ (tenantId collection documentId : String) (options : WriteOptions),
      WritesInOrder client server options.requestId uuid .deleteDoc (client.deleteDocument tenantId collection documentId options)
        [⟨tenantId, collection, documentId, options.requestId.getD (defaultDeleteDocumentRequestId collection uuid)⟩]) ∧
    (∀ (V : Type) (encode : V → Except String (List UInt8)) (tenantId graph nodeId : String) (value : V) (options : WriteOptions)
      (json : List UInt8), encode value = .ok json →
        WritesInOrder client server options.requestId uuid .putNode (client.putNode encode tenantId graph nodeId value options)
          [⟨tenantId, graph, nodeId, json, options.requestId.getD (defaultPutNodeRequestId uuid)⟩]) ∧
    (∀ (V : Type) (encode : V → Except String (List UInt8)) (tenantId graph : String) (edge : EdgeInput V) (request : AddEdgeRequest),
      buildAddEdgeRequest encode tenantId graph uuid edge = .ok request →
        WritesInOrder client server edge.requestId uuid .addEdge (client.addEdge encode tenantId graph edge) [request]) ∧
    (∀ (tenantId graph edgeId : String) (options : WriteOptions),
      WritesInOrder client server options.requestId uuid .deleteEdge (client.deleteEdge tenantId graph edgeId options)
        [⟨tenantId, graph, edgeId, options.requestId.getD (defaultDeleteEdgeRequestId uuid)⟩]) ∧
    (∀ (tenantId bucket fileId : String) (options : WriteOptions),
      WritesInOrder client server options.requestId uuid .delete (client.deleteFile tenantId bucket fileId options)
        [⟨tenantId, bucket, fileId, options.requestId.getD (defaultDeleteFileRequestId uuid)⟩]) ∧
    ∀ (hash : Sha256) (tenantId bucket fileId : String) (bytes : Bytes) (options : FileUploadOptions),
      WritesInOrder client server options.requestId uuid wholeUpload (client.uploadFile hash tenantId bucket fileId bytes options)
        [chunkUploadRequests tenantId bucket fileId bytes.data options.contentType
          (resolveChecksum hash options.checksum bytes.data) (options.requestId.getD (defaultUploadFileRequestId uuid))] := by
  have hlands : ∀ {Req : Type} {requestId : Option String} {write : Req → WriteCall} {call : Call Req Unit (Result Unit)}
      {script : List Req}, Follows client (fixedUuid requestId uuid) call script →
        WritesInOrder client server requestId uuid write call script :=
    fun hfollows _ _ _ _ hreach hm hrepeats _ hrun => hfollows.lands hreach hm hrepeats hrun
  refine ⟨?_, ?_, ?_, ?_, ?_, ?_, ?_⟩
  · intro V encoder tenantId collection documentId value options script hscript
    exact hlands (follows_putDocument hscript)
  · intro tenantId collection documentId options
    exact hlands (follows_requestId _ _ (follows_unary _ _))
  · intro V encode tenantId graph nodeId value options json hjson
    refine hlands ?_
    unfold Client.putNode
    rw [hjson]
    exact follows_requestId _ _ (follows_unary _ _)
  · intro V encode tenantId graph edge request hrequest
    refine hlands ?_
    unfold buildAddEdgeRequest at hrequest
    unfold Client.addEdge
    cases hjson : encode edge.value with
    | error e =>
      rw [hjson] at hrequest
      cases hrequest
    | ok json =>
      rw [hjson] at hrequest
      cases hrequest
      exact follows_requestId _ _ (follows_unary _ _)
  · intro tenantId graph edgeId options
    exact hlands (follows_requestId _ _ (follows_unary _ _))
  · intro tenantId bucket fileId options
    exact hlands (follows_requestId _ _ (follows_unary _ _))
  · intro hash tenantId bucket fileId bytes options
    refine hlands ?_
    have hid : Client.uploadRequestId options = Client.writeRequestId options.requestId defaultUploadFileRequestId := by
      unfold Client.uploadRequestId Client.writeRequestId
      cases options.requestId <;> rfl
    unfold Client.uploadFile
    cases validateFileSize (UInt64.ofNat bytes.data.length) client.maxFileBytes with
    | error error =>
      refine follows_of_sent fun s hs => wp_ret fun t hst _ => ?_
      have hhist : t.history = s.history ++ [] := by rw [hst.1, List.append_nil]
      exact ⟨⟨[], hhist, DocumentAux.only_nil _⟩, [], hhist, DocumentAux.only_nil _, nofun⟩
    | ok u =>
      simp only [hid]
      exact follows_requestId _ _ follows_uploads

namespace HostedCallsAux

/-- A client without a token manager. -/
def plainClient : Client := ⟨false, none, 0⟩

/-- A call of `put_node` with a request id of its own. -/
def oneNode : Call PutNodeRequest Unit (Result Unit) :=
  plainClient.putNode (fun value : UInt8 => .ok [value]) "t" "g" "a" 1 ⟨some "r"⟩

/-- The request it sends. -/
def oneNodeRequest : PutNodeRequest := ⟨"t", "g", "a", [1], "r"⟩

/-- That request, as it reaches the server. -/
def delivered : Event := .call none (.putNode oneNodeRequest)

/-- The same call without a request id. -/
def anonymousNode : Call PutNodeRequest Unit (Result Unit) :=
  plainClient.putNode (fun value : UInt8 => .ok [value]) "t" "g" "a" 1 ⟨none⟩

/-- The request it sends on the UUID it draws. -/
def anonymousRequest : PutNodeRequest := ⟨"t", "g", "a", [1], defaultPutNodeRequestId "u"⟩

end HostedCallsAux

/-- A call fails before its request arrives. When it is made again, that request arrives, and the second one twice. A call without
a request id is made once, and its request arrives twice. -/
theorem client_writes_in_order_late :
    (∃ s t : Wired PutNodeRequest,
      Repeats (Wired.system plainClient .default none .putNode [oneNodeRequest]) oneNode (.ok ())
        ⟨⟨TokenManager.new .verbatim 0 ⟨"t", 600, "Bearer"⟩ "Bearer t", []⟩, []⟩ s ∧
      Runs (Wired.system plainClient .default none .putNode [oneNodeRequest]) oneNode s (pure (.ok ())) t ∧
      t.events = [delivered, delivered, delivered] ∧
      State.default.landedUnder [.putNode oneNodeRequest] t.events = [.putNode oneNodeRequest]) ∧
    ∃ t : Wired PutNodeRequest,
      Runs (Wired.system plainClient .default (some "u") .putNode [anonymousRequest]) anonymousNode
        ⟨⟨TokenManager.new .verbatim 0 ⟨"t", 600, "Bearer"⟩ "Bearer t", []⟩, []⟩ (pure (.ok ())) t ∧
      t.events = [.call none (.putNode anonymousRequest), .call none (.putNode anonymousRequest)] ∧
      State.default.landedUnder [.putNode anonymousRequest] t.events = [.putNode anonymousRequest] := by
  let m := TokenManager.new .verbatim 0 ⟨"t", 600, "Bearer"⟩ "Bearer t"
  have hm : m.Reachable := ⟨.verbatim, 0, ⟨"t", 600, "Bearer"⟩, "Bearer t", rfl, .refl⟩
  let S := Wired.system plainClient .default none .putNode [oneNodeRequest]
  let lost : List (Entry PutNodeRequest Unit) :=
    [.sent ⟨oneNodeRequest, none⟩ none, .answered (some (.error ⟨.unavailable, "connection reset", false⟩)) 0]
  have hsent : Runs S oneNode ⟨⟨m, []⟩, []⟩ _ ⟨⟨m, [.sent ⟨oneNodeRequest, none⟩ none]⟩, []⟩ :=
    Runs.refl.act (show S.act (Op.send ⟨oneNodeRequest, none⟩) _ () _ from ⟨⟨rfl, rfl, nofun⟩, trivial⟩)
  have hlost : Runs S oneNode _ _ ⟨⟨m, lost⟩, []⟩ :=
    hsent.act (show S.act Op.answer _ (.error ⟨.unavailable, "connection reset", false⟩) _ from ⟨⟨rfl, rfl, nofun⟩, trivial⟩)
  have hrepeats : Repeats S oneNode (.ok ()) ⟨⟨m, []⟩, []⟩ ⟨⟨m, lost⟩, []⟩ := Repeats.refl.again hlost nofun
  have hresent : Runs S oneNode ⟨⟨m, lost⟩, []⟩ _ ⟨⟨m, lost ++ [.sent ⟨oneNodeRequest, none⟩ none]⟩, []⟩ :=
    Runs.refl.act (show S.act (Op.send ⟨oneNodeRequest, none⟩) _ () _ from ⟨⟨rfl, rfl, nofun⟩, trivial⟩)
  have harrived : Runs S oneNode _ _ ⟨⟨m, lost ++ [.sent ⟨oneNodeRequest, none⟩ none]⟩, [delivered, delivered, delivered]⟩ :=
    hresent.env (show S.env _ _ from ⟨⟨rfl, .refl⟩, [delivered, delivered, delivered], rfl,
      fun event hevent => .inl ⟨oneNodeRequest, by decide, none, by simpa [delivered] using hevent⟩⟩)
  have hrun : Runs S oneNode _ (pure (.ok ()))
      ⟨⟨m, lost ++ [.sent ⟨oneNodeRequest, none⟩ none] ++ [.answered (some (.ok ())) 0]⟩, [delivered, delivered, delivered]⟩ :=
    harrived.act (show S.act Op.answer _ (.ok ()) ⟨⟨m, _⟩, _⟩ from
      ⟨⟨rfl, rfl, fun _ => ⟨oneNodeRequest, by decide, [], none, [delivered, delivered], rfl, rfl⟩⟩, trivial⟩)
  let S' := Wired.system plainClient .default (some "u") .putNode [anonymousRequest]
  let arrived : Event := .call none (.putNode anonymousRequest)
  have hdrawn : Runs S' anonymousNode ⟨⟨m, []⟩, []⟩ _ ⟨⟨m, []⟩, []⟩ :=
    Runs.refl.act (show S'.act Op.uuid _ "u" _ from ⟨⟨rfl, rfl, nofun⟩, fun _ h => Option.some.inj h⟩)
  have hsent' : Runs S' anonymousNode _ _ ⟨⟨m, [.sent ⟨anonymousRequest, none⟩ none]⟩, []⟩ :=
    hdrawn.act (show S'.act (Op.send ⟨anonymousRequest, none⟩) _ () _ from ⟨⟨rfl, rfl, nofun⟩, trivial⟩)
  have harrived' : Runs S' anonymousNode _ _ ⟨⟨m, [.sent ⟨anonymousRequest, none⟩ none]⟩, [arrived, arrived]⟩ :=
    hsent'.env (show S'.env _ _ from ⟨⟨rfl, .refl⟩, [arrived, arrived], rfl,
      fun event hevent => .inl ⟨anonymousRequest, by decide, none, by simpa [arrived] using hevent⟩⟩)
  have hrun' : Runs S' anonymousNode _ (pure (.ok ()))
      ⟨⟨m, [.sent ⟨anonymousRequest, none⟩ none] ++ [.answered (some (.ok ())) 0]⟩, [arrived, arrived]⟩ :=
    harrived'.act (show S'.act Op.answer _ (.ok ()) ⟨⟨m, _⟩, _⟩ from
      ⟨⟨rfl, rfl, fun _ => ⟨anonymousRequest, by decide, [], none, [arrived], rfl, rfl⟩⟩, trivial⟩)
  refine ⟨⟨_, _, hrepeats, hrun, rfl, ?_⟩, _, hrun', rfl, ?_⟩
  · exact ((client_writes_in_order plainClient .default "").2.2.1 UInt8 (fun value => .ok [value]) "t" "g" "a" 1 ⟨some "r"⟩ [1] rfl
      m _ _ _ hm ⟨by decide, by decide, fun _ _ _ _ => Finset.notMem_empty _⟩ hrepeats nofun hrun).2 rfl
  · exact ((client_writes_in_order plainClient .default "u").2.2.1 UInt8 (fun value => .ok [value]) "t" "g" "a" 1 ⟨none⟩ [1] rfl m _ _
      _ hm ⟨by decide, by decide, fun _ _ _ _ => Finset.notMem_empty _⟩ .refl (fun _ => rfl) hrun').2 rfl

end Server

end RociaSdk
