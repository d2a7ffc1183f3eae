import RociaSdk.Lemmas.ServedAux

/-!
# Documents bound to a node

`put_document` with a node binding sends the document before the node and both under one request id, or nothing at all. If the
request id is the caller's and the server deduplicates, then repeating the call until it returns `Ok` leaves each of the two
writes applied once, the document first.
-/

namespace RociaSdk

open Interleave TokenManager

/-- The key of the document a call of `put_document` writes. -/
def documentKey (tenantId collection documentId requestId : String) : WriteKey :=
  (tenantId, "PutDoc", (collection, documentId), requestId)

/-- The key of the node it binds it to. -/
def nodeKey (tenantId documentId : String) (binding : NodeBinding) (requestId : String) : WriteKey :=
  (tenantId, "PutNode", (binding.graph, binding.label ++ ":" ++ documentId), requestId)

/-- What the record of a call of `put_document` with a node binding is like: all writes carry the call's request id, and each
node is sent after a document has been acknowledged. -/
structure DocumentFirst (collection : String) (options : DocumentWriteOptions) (history : List (Entry Write Unit)) : Prop where
  oneRequestId : ∃ requestId, IsRequestId collection options requestId ∧ ∀ w ∈ writesOf history, w.requestId = requestId
  acknowledged : ∀ before request stamp rest node, history = before ++ .sent request stamp :: rest →
    request.message = .putNode node → ∃ earlier sent stamp' completed later document,
      before = earlier ++ .sent sent stamp' :: .answered (some (.ok ())) completed :: later ∧ sent.message = .putDoc document

/-- That the document or the properties of the node it is bound to cannot be encoded. -/
def Encoder.Refuses {V : Type} (encoder : Encoder V) (collection documentId : String) (value : V) : Prop :=
  (∃ e, encoder.document value = .error e) ∨ ∃ e, encoder.object [("collection", collection), ("id", documentId)] = .error e

namespace ServedAux

open DocumentAux

variable {V : Type} {client : Client} {encoder : Encoder V} {tenantId collection documentId requestId : String} {value : V}
  {binding : NodeBinding} {options : DocumentWriteOptions} {document : PutDocRequest} {node : PutNodeRequest}
  {history : List (Entry Write Unit)}

/-- A document that can be encoded goes out under the call's request id and key. -/
theorem built_document (h : buildPutDocRequest encoder tenantId collection documentId value requestId = .ok document) :
    document.requestId = requestId ∧
      (Write.putDoc document).dedupKey = documentKey tenantId collection documentId requestId ∧
      ∀ e, encoder.document value ≠ .error e := by
  unfold buildPutDocRequest at h
  cases hjson : encoder.document value with
  | error e =>
    rw [hjson] at h
    cases h
  | ok json =>
    rw [hjson] at h
    cases h
    exact ⟨rfl, rfl, nofun⟩

/-- A node whose properties can be encoded goes out under the call's request id and key. -/
theorem built_node (h : buildNodeBindingRequest encoder tenantId collection documentId binding requestId = .ok node) :
    node.requestId = requestId ∧ (Write.putNode node).dedupKey = nodeKey tenantId documentId binding requestId ∧
      ∀ e, encoder.object [("collection", collection), ("id", documentId)] ≠ .error e := by
  unfold buildNodeBindingRequest at h
  cases hjson : encoder.object [("collection", collection), ("id", documentId)] with
  | error e =>
    rw [hjson] at h
    cases h
  | ok json =>
    rw [hjson] at h
    cases h
    exact ⟨rfl, rfl, nofun⟩

/-- A record that ends with an acknowledgement holds that of a message sent. -/
theorem acknowledged_of_script {before rest : List (Entry Write Unit)} {request : Request Write} {stamp : Option Token}
    {sentNode : PutNodeRequest} (h : Script (.putDoc document) (.putNode node) history)
    (hhist : history = before ++ .sent request stamp :: rest) (hmessage : request.message = .putNode sentNode) :
    ∃ earlier sent stamp' completed later document,
      before = earlier ++ .sent sent stamp' :: .answered (some (.ok ())) completed :: later ∧
        sent.message = .putDoc document := by
  have hdocument : ∀ {record : List (Entry Write Unit)}, Only (.putDoc document) record → .sent request stamp ∉ record := by
    intro record honly hmem
    have heq := honly request stamp hmem
    rw [hmessage] at heq
    cases heq
  cases h with
  | document _ honly => exact absurd (hhist ▸ List.mem_append_right before (List.mem_cons_self ..)) (hdocument honly)
  | node first rest' hfirst hacked _ =>
    -- The node is not among the writes of the document, so these all come before it.
    rcases List.append_eq_append_iff.1 hhist with ⟨later, hbefore, _⟩ | ⟨later, hfirst', hafter⟩
    · obtain ⟨earlier, sent, stamp', completed, rfl, hsent⟩ := hacked
      exact ⟨earlier, sent, stamp', completed, later, document, by simp [hbefore], hsent⟩
    · cases later with
      | nil =>
        obtain ⟨earlier, sent, stamp', completed, rfl, hsent⟩ := hacked
        exact ⟨earlier, sent, stamp', completed, [], document, by simpa using hfirst'.symm, hsent⟩
      | cons entry later =>
        rw [List.cons_append, List.cons.injEq] at hafter
        refine absurd ?_ (hdocument hfirst)
        rw [hfirst', hafter.1]
        exact List.mem_append_right before (List.mem_cons_self ..)

/-- The record of a call has the document first. -/
theorem documentFirst_of_recorded (h : DocumentAux.Recorded encoder tenantId collection documentId value binding options history) :
    DocumentFirst collection options history := by
  obtain ⟨requestId, hid, ⟨document, node, hdocument, hnode, hscript⟩ | ⟨_, rfl⟩⟩ := h
  · refine ⟨⟨requestId, hid, ?_⟩, ?_⟩
    · intro w hw
      rcases mem_script hscript hw with rfl | rfl
      · exact (built_document hdocument).1
      · exact (built_node hnode).1
    · intro before request stamp rest sentNode hhist hmessage
      exact acknowledged_of_script hscript hhist hmessage
  · refine ⟨⟨requestId, hid, fun w hw => absurd hw List.not_mem_nil⟩, ?_⟩
    intro before request stamp rest _ hhist _
    exact absurd hhist.symm (List.append_ne_nil_of_right_ne_nil _ (List.cons_ne_nil _ _))

/-- What cannot be encoded is not sent. -/
theorem nothing_of_refuses (hrefuses : encoder.Refuses collection documentId value)
    (h : DocumentAux.Recorded encoder tenantId collection documentId value binding options history) : history = [] := by
  obtain ⟨requestId, _, ⟨document, node, hdocument, hnode, _⟩ | ⟨_, hnil⟩⟩ := h
  · rcases hrefuses with ⟨e, he⟩ | ⟨e, he⟩
    · exact absurd he ((built_document hdocument).2.2 e)
    · exact absurd he ((built_node hnode).2.2 e)
  · exact hnil

/-- With a request id of the caller's, a call whose requests can be built follows the script of these requests. -/
theorem script_of_recorded (hid : options.requestId = some requestId)
    (hdocument : buildPutDocRequest encoder tenantId collection documentId value requestId = .ok document)
    (hnode : buildNodeBindingRequest encoder tenantId collection documentId binding requestId = .ok node)
    (h : DocumentAux.Recorded encoder tenantId collection documentId value binding options history) :
    Script (.putDoc document) (.putNode node) history := by
  obtain ⟨requestId', hid', hrecorded⟩ := h
  rw [IsRequestId, hid] at hid'
  cases hid'
  rw [hdocument, hnode] at hrecorded
  rcases hrecorded with ⟨_, _, hdocument', hnode', hscript⟩ | ⟨⟨_, hrefused⟩ | ⟨_, hrefused⟩, _⟩
  · cases hdocument'
    cases hnode'
    exact hscript
  · cases hrefused
  · cases hrefused

/-- Such a call follows the script wherever it is. -/
theorem script_call {s : Shared Write Unit} (hs : s.Sound) (hbinding : options.nodeBinding = some binding)
    (hid : options.requestId = some requestId)
    (hdocument : buildPutDocRequest encoder tenantId collection documentId value requestId = .ok document)
    (hnode : buildNodeBindingRequest encoder tenantId collection documentId binding requestId = .ok node) :
    wp (client.system Write Unit)
      (fun t => ∃ new, t.history = s.history ++ new ∧ Script (.putDoc document) (.putNode node) new)
      (fun _ _ => True) (client.putDocument encoder tenantId collection documentId value options) s := by
  refine (wp_putDocument hs hbinding).mono ?_ (fun _ _ _ _ => trivial)
  rintro t _ ⟨new, hnew, hrecorded⟩
  exact ⟨new, hnew, script_of_recorded hid hdocument hnode hrecorded⟩

/-- A call that returns `Ok` under a request id of the caller's has built both requests, and its record is complete. -/
theorem complete_call {s t : Shared Write Unit} (hs : s.Sound) (hbinding : options.nodeBinding = some binding)
    (hid : options.requestId = some requestId)
    (hrun : Runs (client.system Write Unit) (client.putDocument encoder tenantId collection documentId value options) s
      (pure (.ok ())) t) :
    ∃ document node record, buildPutDocRequest encoder tenantId collection documentId value requestId = .ok document ∧
      buildNodeBindingRequest encoder tenantId collection documentId binding requestId = .ok node ∧
      t.history = s.history ++ record ∧ Complete (.putDoc document) (.putNode node) record := by
  obtain ⟨record, hrecord, _, hdone⟩ := hrun.post hs (wp_putDocument hs hbinding)
  obtain ⟨requestId', document, node, hid', hdocument, hnode, hcomplete⟩ := hdone rfl
  rw [IsRequestId, hid] at hid'
  cases hid'
  exact ⟨document, node, record, hdocument, hnode, hrecord, hcomplete⟩

end ServedAux

open DocumentAux ServedAux in
/-- However the server answers and wherever it is dropped, `put_document` with a node binding sends the document first and one
request id throughout, and nothing if it cannot encode both. If the request id is the caller's, then against a server that
deduplicates, calls that fail or are dropped followed by one that returns `Ok` leave each write applied once, the document
first. -/
theorem Client.put_document_bound (client : Client) :
    (∀ (V : Type) (encoder : Encoder V) (tenantId collection documentId : String) (value : V) (binding : NodeBinding)
      (options : DocumentWriteOptions) (m : TokenManager) (p : Call Write Unit (Result Unit)) (s : Shared Write Unit),
      m.Reachable → options.nodeBinding = some binding →
        Runs (client.system Write Unit) (client.putDocument encoder tenantId collection documentId value options) ⟨m, []⟩ p s →
        DocumentFirst collection options s.history ∧
          (encoder.Refuses collection documentId value → writesOf s.history = [] ∧ p ≠ pure (.ok ()))) ∧
    (∀ (V : Type) (encoder : Encoder V) (tenantId collection documentId requestId : String) (value : V)
      (binding : NodeBinding) (options : DocumentWriteOptions) (m : TokenManager) (seen : List WriteKey)
      (others : Write → Prop) (s t : Served),
      m.Reachable → options.nodeBinding = some binding → options.requestId = some requestId →
        documentKey tenantId collection documentId requestId ∉ seen → nodeKey tenantId documentId binding requestId ∉ seen →
        (∀ w, others w → w.dedupKey ≠ documentKey tenantId collection documentId requestId ∧
          w.dedupKey ≠ nodeKey tenantId documentId binding requestId) →
        Repeats (Served.system client others) (client.putDocument encoder tenantId collection documentId value options) (.ok ())
          ⟨⟨m, []⟩, ⟨seen, []⟩⟩ s →
        Runs (Served.system client others) (client.putDocument encoder tenantId collection documentId value options) s
          (pure (.ok ())) t →
        ∃ document node, buildPutDocRequest encoder tenantId collection documentId value requestId = .ok document ∧
          buildNodeBindingRequest encoder tenantId collection documentId binding requestId = .ok node ∧
          t.store.applied.filter (fun w => w.dedupKey = documentKey tenantId collection documentId requestId ∨
            w.dedupKey = nodeKey tenantId documentId binding requestId) = [.putDoc document, .putNode node]) := by
  refine ⟨?_, ?_⟩
  · intro V encoder tenantId collection documentId value binding options m p s hm hbinding hrun
    have hsound : Shared.Sound (⟨m, []⟩ : Shared Write Unit) := ReplayAux.sound_of_reachable hm
    have hwp : wp (client.system Write Unit) _ _ (client.putDocument encoder tenantId collection documentId value options)
        ⟨m, []⟩ := wp_putDocument hsound hbinding
    obtain ⟨record, hrecord, hrecorded⟩ := hrun.guarantee hsound hwp
    rw [List.nil_append] at hrecord
    rw [hrecord]
    refine ⟨documentFirst_of_recorded hrecorded, ?_⟩
    intro hrefuses
    refine ⟨by rw [nothing_of_refuses hrefuses hrecorded]; rfl, ?_⟩
    rintro rfl
    obtain ⟨_, _, _, hdone⟩ := hrun.post hsound hwp
    obtain ⟨_, document, node, _, hdocument, hnode, _⟩ := hdone rfl
    rcases hrefuses with ⟨e, he⟩ | ⟨e, he⟩
    · exact (built_document hdocument).2.2 e he
    · exact (built_node hnode).2.2 e he
  · intro V encoder tenantId collection documentId requestId value binding options m seen others s t hm hbinding hid
      hdocumentKey hnodeKey hothers hrepeats hrun
    have hs : s.shared.Sound := hrepeats.invariant (fun s => s.shared.Sound) (ReplayAux.sound_of_reachable hm)
      fun t left u ht hr => ((runs_shared hr).sound ht (wp_putDocument ht hbinding)).1
    obtain ⟨document, node, record, hdocument, hnode, hrecord, hcomplete⟩ := complete_call hs hbinding hid (runs_shared hrun)
    refine ⟨document, node, hdocument, hnode, ?_⟩
    rw [← (built_document hdocument).2.1] at hdocumentKey hothers ⊢
    rw [← (built_node hnode).2.1] at hnodeKey hothers ⊢
    have hkept : ∀ {t u : Served} {left : Call Write Unit (Result Unit)}, Kept (.putDoc document) (.putNode node) t →
        Runs (Served.system client others) (client.putDocument encoder tenantId collection documentId value options) t left u →
        Kept (.putDoc document) (.putNode node) u := fun ht hr =>
      (kept_run hr (script_call ht.sound hbinding hid hdocument hnode) (key_ne document node) hothers ht).1
    have hstart : Kept (.putDoc document) (.putNode node) ⟨⟨m, []⟩, ⟨seen, []⟩⟩ :=
      { sound := ReplayAux.sound_of_reachable hm
        honest := fun before completed rest hat =>
          absurd hat.symm (List.append_ne_nil_of_right_ne_nil _ (List.cons_ne_nil _ _))
        ordered := ⟨fun w hw => absurd hw List.not_mem_nil, fun hw => absurd hw List.not_mem_nil⟩
        once := once_new seen hdocumentKey hnodeKey }
    have hbefore : Kept (.putDoc document) (.putNode node) s := hrepeats.invariant _ hstart fun t left u ht hr => hkept ht hr
    exact applied_of_complete (hkept hbefore hrun) hrecord hcomplete

namespace ServedAux

/-- Encodes everything as an empty string. -/
def encodeNothing : Encoder Unit := ⟨fun _ => .ok [], fun _ => .ok []⟩

/-- The options of a call with a request id of its own and a node binding. -/
def boundOptions : DocumentWriteOptions := ⟨some "r", some ⟨"article", "g"⟩⟩

/-- The document such a call writes. -/
def boundDocument : Write := .putDoc ⟨"t", "c", "1", [], "r"⟩

/-- The node it binds it to. -/
def boundNode : Write := .putNode ⟨"t", "g", "article:1", [], "r"⟩

end ServedAux

open ServedAux in
/-- A document is written but its acknowledgement is lost; the same call once more writes the node too. -/
theorem Client.put_document_bound_lost :
    ∃ s t : Served,
      Repeats (Served.system ⟨false, none, 0⟩ (fun _ => False)) (putDocument ⟨false, none, 0⟩ encodeNothing "t" "c" "1" () boundOptions)
        (.ok ()) ⟨⟨TokenManager.new .verbatim 0 ⟨"t", 600, "Bearer"⟩ "Bearer t", []⟩, ⟨[], []⟩⟩ s ∧
      Runs (Served.system ⟨false, none, 0⟩ (fun _ => False)) (putDocument ⟨false, none, 0⟩ encodeNothing "t" "c" "1" () boundOptions)
        s (pure (.ok ())) t ∧
      (writesOf t.shared.history).length = 3 ∧
      t.store.applied.filter (fun w => w.dedupKey = documentKey "t" "c" "1" "r" ∨
        w.dedupKey = nodeKey "t" "1" ⟨"article", "g"⟩ "r") = [boundDocument, boundNode] := by
  let client : Client := ⟨false, none, 0⟩
  let m := TokenManager.new .verbatim 0 ⟨"t", 600, "Bearer"⟩ "Bearer t"
  have hm : m.Reachable := ⟨.verbatim, 0, ⟨"t", 600, "Bearer"⟩, "Bearer t", rfl, .refl⟩
  let S := Served.system client fun _ => False
  let call := putDocument client encodeNothing "t" "c" "1" () boundOptions
  let lost : List (Entry Write Unit) :=
    [.sent ⟨boundDocument, none⟩ none, .answered (some (.error ⟨.unavailable, "connection reset", false⟩)) 0]
  let afterDocument : WriteStore := WriteStore.handle ⟨[], []⟩ boundDocument
  let afterNode : WriteStore := afterDocument.handle boundNode
  -- The first call: the server writes the document, and the client gets an error.
  have hsent : Runs S call ⟨⟨m, []⟩, ⟨[], []⟩⟩ _ ⟨⟨m, [.sent ⟨boundDocument, none⟩ none]⟩, ⟨[], []⟩⟩ :=
    Runs.refl.act (show S.act (Op.send ⟨boundDocument, none⟩) _ () _ from ⟨rfl, rfl, nofun⟩)
  have hhandled : Runs S call _ _ ⟨⟨m, [.sent ⟨boundDocument, none⟩ none]⟩, afterDocument⟩ :=
    hsent.env (show S.env _ _ from ⟨⟨rfl, .refl⟩, Transition.Run.refl.tail boundDocument (.inl (by decide)) rfl⟩)
  have hlost : Runs S call _ _ ⟨⟨m, lost⟩, afterDocument⟩ :=
    hhandled.act (show S.act Op.answer _ (.error ⟨.unavailable, "connection reset", false⟩) _ from ⟨rfl, rfl, nofun⟩)
  have hrepeats : Repeats S call (.ok ()) ⟨⟨m, []⟩, ⟨[], []⟩⟩ ⟨⟨m, lost⟩, afterDocument⟩ := Repeats.refl.again hlost nofun
  -- The second call: the document is a duplicate, and is acknowledged.
  have hresent : Runs S call ⟨⟨m, lost⟩, afterDocument⟩ _ ⟨⟨m, lost ++ [.sent ⟨boundDocument, none⟩ none]⟩, afterDocument⟩ :=
    Runs.refl.act (show S.act (Op.send ⟨boundDocument, none⟩) _ () _ from ⟨rfl, rfl, nofun⟩)
  have hacked : Runs S call _ _
      ⟨⟨m, lost ++ [.sent ⟨boundDocument, none⟩ none, .answered (some (.ok ())) 0]⟩, afterDocument⟩ :=
    hresent.act (show S.act Op.answer _ (.ok ()) _ from ⟨rfl, rfl, fun _ => ⟨boundDocument, by decide, by decide⟩⟩)
  have hnode : Runs S call _ _ ⟨⟨m, lost ++ [.sent ⟨boundDocument, none⟩ none, .answered (some (.ok ())) 0,
      .sent ⟨boundNode, none⟩ none]⟩, afterDocument⟩ :=
    hacked.act (show S.act (Op.send ⟨boundNode, none⟩) _ () _ from ⟨rfl, rfl, nofun⟩)
  have hstored : Runs S call _ _ ⟨⟨m, lost ++ [.sent ⟨boundDocument, none⟩ none, .answered (some (.ok ())) 0,
      .sent ⟨boundNode, none⟩ none]⟩, afterNode⟩ :=
    hnode.env (show S.env _ _ from ⟨⟨rfl, .refl⟩, Transition.Run.refl.tail boundNode (.inl (by decide)) rfl⟩)
  let complete : List (Entry Write Unit) := lost ++ [.sent ⟨boundDocument, none⟩ none, .answered (some (.ok ())) 0,
    .sent ⟨boundNode, none⟩ none, .answered (some (.ok ())) 0]
  have hrun : Runs S call _ (pure (.ok ())) ⟨⟨m, complete⟩, afterNode⟩ :=
    hstored.act (show S.act Op.answer _ (.ok ()) ⟨⟨m, complete⟩, afterNode⟩ from
      ⟨rfl, rfl, fun _ => ⟨boundNode, by decide, by decide⟩⟩)
  obtain ⟨document, node, hdocument, hnode, happlied⟩ := (put_document_bound client).2 Unit encodeNothing "t" "c" "1" "r" ()
    ⟨"article", "g"⟩ boundOptions m [] (fun _ => False) _ _ hm rfl rfl List.not_mem_nil List.not_mem_nil nofun hrepeats hrun
  cases hdocument
  cases hnode
  exact ⟨_, _, hrepeats, hrun, by decide, happlied⟩

end RociaSdk
