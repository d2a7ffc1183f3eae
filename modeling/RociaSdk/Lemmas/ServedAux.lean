import RociaSdk.Lemmas.DocumentAux

/-!
# A document write and a server that deduplicates

What holds of the record and the store in every state of a call of `put_document` and of every call after it: each
acknowledgement is of a write whose key the server knows, the node is sent only once the server knows the document's key, and
each of the two has been applied once if its key is known, the document first.
-/

namespace RociaSdk

open Interleave

namespace Served

/-- Each acknowledgement of the record is of the write sent last before it, and the server knows that write's key. -/
def Honest (s : Served) : Prop :=
  ∀ before completed rest, s.shared.history = before ++ .answered (some (.ok ())) completed :: rest →
    ∃ w, (writesOf before).getLast? = some w ∧ w.dedupKey ∈ s.store.seen

/-- Only two writes have been sent, and the second one only once the server knew the key of the first. -/
def Ordered (document node : Write) (s : Served) : Prop :=
  (∀ w ∈ writesOf s.shared.history, w = document ∨ w = node) ∧
    (node ∈ writesOf s.shared.history → document.dedupKey ∈ s.store.seen)

end Served

/-- The writes with the key of one of two that a store has applied. -/
def WriteStore.appliedOf (store : WriteStore) (document node : Write) : List Write :=
  store.applied.filter fun w => w.dedupKey = document.dedupKey ∨ w.dedupKey = node.dedupKey

/-- Of two writes each has been applied once if its key is known, the first one before the second. -/
def WriteStore.Once (document node : Write) (store : WriteStore) : Prop :=
  store.appliedOf document node = store.known document ++ store.known node ∧
    (node.dedupKey ∈ store.seen → document.dedupKey ∈ store.seen)

namespace ServedAux

open DocumentAux

/-! ## The store -/

section
variable {store store' : WriteStore} {document node w : Write}

/-- A key that is known stays known. -/
theorem seen_handle {key : WriteKey} (h : key ∈ store.seen) : key ∈ (store.handle w).seen := by
  unfold WriteStore.handle
  split
  · exact h
  · exact List.mem_cons_of_mem _ h

/-- A write with a key that is known changes nothing. -/
theorem handle_known (h : w.dedupKey ∈ store.seen) : store.handle w = store := if_pos h

theorem known_pos (h : w.dedupKey ∈ store.seen) : store.known w = [w] := if_pos h

theorem known_neg (h : w.dedupKey ∉ store.seen) : store.known w = [] := if_neg h

/-- A write with another key is none of the two. -/
theorem once_other (h : store.Once document node) (hdocument : w.dedupKey ≠ document.dedupKey)
    (hnode : w.dedupKey ≠ node.dedupKey) : (store.handle w).Once document node := by
  unfold WriteStore.handle
  split
  · exact h
  · unfold WriteStore.Once WriteStore.appliedOf WriteStore.known
    simp only [List.filter_append, List.mem_cons, hdocument.symm, hnode.symm, false_or]
    have hnone : [w].filter (fun w => w.dedupKey = document.dedupKey ∨ w.dedupKey = node.dedupKey) = [] := by
      simp [hdocument, hnode]
    rw [hnone, List.append_nil]
    exact h

/-- The first write is applied if its key is not known, and then neither is the other's. -/
theorem once_document (h : store.Once document node) (hkeys : document.dedupKey ≠ node.dedupKey) :
    (store.handle document).Once document node := by
  by_cases hseen : document.dedupKey ∈ store.seen
  · rw [handle_known hseen]
    exact h
  · obtain ⟨happlied, hfirst⟩ := h
    have hnode : node.dedupKey ∉ store.seen := fun hnode => hseen (hfirst hnode)
    unfold WriteStore.appliedOf at happlied
    rw [known_neg hseen, known_neg hnode, List.append_nil] at happlied
    unfold WriteStore.Once WriteStore.handle WriteStore.appliedOf WriteStore.known
    rw [if_neg hseen, List.filter_append, happlied]
    simp [hnode, hkeys.symm]

/-- The second write is applied if its key is not known, after the first. -/
theorem once_node (h : store.Once document node) (hdocument : document.dedupKey ∈ store.seen) :
    (store.handle node).Once document node := by
  by_cases hseen : node.dedupKey ∈ store.seen
  · rw [handle_known hseen]
    exact h
  · obtain ⟨happlied, _⟩ := h
    unfold WriteStore.appliedOf at happlied
    rw [known_pos hdocument, known_neg hseen, List.append_nil] at happlied
    unfold WriteStore.Once WriteStore.handle WriteStore.appliedOf WriteStore.known
    rw [if_neg hseen, List.filter_append, happlied]
    simp [hdocument]

/-- A store that knows neither key has applied neither write. -/
theorem once_new (seen : List WriteKey) (hdocument : document.dedupKey ∉ seen) (hnode : node.dedupKey ∉ seen) :
    WriteStore.Once document node ⟨seen, []⟩ := by
  simp [WriteStore.Once, WriteStore.appliedOf, WriteStore.known, hdocument, hnode]

/-- A document and a node have different keys. -/
theorem key_ne (document : PutDocRequest) (node : PutNodeRequest) :
    (Write.putDoc document).dedupKey ≠ (Write.putNode node).dedupKey := by
  simp [Write.dedupKey]

end

/-! ## The record -/

section
variable {history before rest : List (Entry Write Unit)} {document node w : Write}

/-- The writes of two records one after the other. -/
theorem writesOf_append (history more : List (Entry Write Unit)) : writesOf (history ++ more) = writesOf history ++ writesOf more :=
  List.filterMap_append

/-- A write that has been sent is in the record. -/
theorem mem_writesOf : w ∈ writesOf history ↔ ∃ request stamp, .sent request stamp ∈ history ∧ request.message = w := by
  unfold writesOf
  rw [List.mem_filterMap]
  constructor
  · rintro ⟨entry, hmem, hentry⟩
    cases entry with
    | sent request stamp => exact ⟨request, stamp, hmem, Option.some.inj hentry⟩
    | answered answer completed => cases hentry
    | refreshed answer => cases hentry
  · rintro ⟨request, stamp, hmem, rfl⟩
    exact ⟨_, hmem, rfl⟩

/-- If all that was sent is one write, that is what was sent. -/
theorem eq_of_only (h : Only document history) (hmem : w ∈ writesOf history) : w = document := by
  obtain ⟨request, stamp, hsent, rfl⟩ := mem_writesOf.1 hmem
  exact h request stamp hsent

/-- A document write sends the document and the node. -/
theorem mem_script (h : Script document node history) (hmem : w ∈ writesOf history) : w = document ∨ w = node := by
  cases h with
  | document _ honly => exact .inl (eq_of_only honly hmem)
  | node first rest hfirst _ hrest =>
    rw [writesOf_append, List.mem_append] at hmem
    exact hmem.imp (eq_of_only hfirst) (eq_of_only hrest)

/-- If it has sent the node, the document has been acknowledged. -/
theorem acked_of_script (h : Script document node history) (hne : node ≠ document) (hmem : node ∈ writesOf history) :
    ∃ first rest, history = first ++ rest ∧ Acked document () first := by
  cases h with
  | document _ honly => exact absurd (eq_of_only honly hmem) hne
  | node first rest _ hacked _ => exact ⟨first, rest, rfl, hacked⟩

end

/-! ## What calls keep -/

section
variable {client : Client} {others : Write → Prop} {s t : Served} {document node : Write}

/-- What has been acknowledged is known to the server. -/
theorem known_of_acked {earlier first rest : List (Entry Write Unit)} (h : s.Honest)
    (hhist : s.shared.history = earlier ++ (first ++ rest)) (hacked : Acked document () first) :
    document.dedupKey ∈ s.store.seen := by
  obtain ⟨before, request, stamp, completed, rfl, hmessage⟩ := hacked
  obtain ⟨w, hlast, hseen⟩ := h (earlier ++ before ++ [.sent request stamp]) completed rest (by simp [hhist])
  have hw : w = document := by
    rw [writesOf_append] at hlast
    have hsent : writesOf [.sent request stamp] = [document] := by rw [← hmessage]; rfl
    rw [hsent, List.getLast?_append, List.getLast?_singleton, Option.some_or, Option.some.injEq] at hlast
    exact hlast.symm
  rw [← hw]
  exact hseen

/-- Keys that are known stay known, and the record of an honest state stays honest, while the environment goes on. -/
theorem honest_env (h : s.Honest) (henv : Served.env others s t) : t.Honest ∧ ∀ key ∈ s.store.seen, key ∈ t.store.seen := by
  obtain ⟨⟨hhist, _⟩, hstore⟩ := henv
  have hseen : ∀ key ∈ s.store.seen, key ∈ t.store.seen := fun key hkey =>
    hstore.invariant (fun store => key ∈ store.seen) hkey fun _ _ _ hmem _ hstep => by
      cases hstep
      exact seen_handle hmem
  refine ⟨?_, hseen⟩
  intro before completed rest hat
  obtain ⟨w, hlast, hknown⟩ := h before completed rest (hhist ▸ hat)
  exact ⟨w, hlast, hseen _ hknown⟩

/-- A record with one entry more is honest if that entry is. -/
theorem honest_entry {entry : Entry Write Unit} (h : s.Honest) (hhist : t.shared.history = s.shared.history ++ [entry])
    (hstore : t.store = s.store)
    (hentry : ∀ completed, entry = .answered (some (.ok ())) completed →
      ∃ w, (writesOf s.shared.history).getLast? = some w ∧ w.dedupKey ∈ s.store.seen) : t.Honest := by
  intro before completed rest hat
  rw [hhist] at hat
  rw [hstore]
  rcases List.eq_nil_or_concat rest with rfl | ⟨rest, last, rfl⟩
  · obtain ⟨rfl, hlast⟩ := List.append_inj' hat rfl
    exact hentry completed (List.singleton_inj.1 hlast)
  · rw [List.concat_eq_append, ← List.cons_append, ← List.append_assoc] at hat
    exact h before completed rest (List.append_inj' hat rfl).1

/-- An operation of a call keeps the record honest. -/
theorem honest_act {op : Op Write} {answer : Ans Write Unit op} (h : s.Honest) (hact : Served.act client op s answer t) :
    t.Honest := by
  obtain ⟨hact, hstore, hacknowledged⟩ := hact
  have hsame : t.shared.history = s.shared.history → t.Honest := by
    intro hhist before completed rest hat
    rw [hstore]
    exact h before completed rest (hhist ▸ hat)
  cases op with
  | send request => exact honest_entry h (congrArg Shared.history hact) hstore nofun
  | answer =>
    refine honest_entry h (congrArg Shared.history hact) hstore ?_
    intro completed heq
    cases heq
    exact hacknowledged rfl
  | answerWithin timeout =>
    refine honest_entry h (congrArg Shared.history hact) hstore ?_
    intro completed heq
    cases heq
    exact hacknowledged rfl
  | isFresh margin => exact hsame (congrArg Shared.history hact.2)
  | begin =>
    obtain ⟨m, _, heq⟩ := hact
    exact hsame (by rw [heq])
  | refreshed call => exact honest_entry h (congrArg Shared.history hact.2) hstore nofun
  | uuid => exact hsame (congrArg Shared.history hact)

/-- What other writers and late deliveries of the two writes do keeps each of them applied once. -/
theorem once_env (h : s.store.Once document node) (hordered : s.Ordered document node)
    (hkeys : document.dedupKey ≠ node.dedupKey)
    (hothers : ∀ w, others w → w.dedupKey ≠ document.dedupKey ∧ w.dedupKey ≠ node.dedupKey)
    (henv : Served.env others s t) : t.store.Once document node := by
  have hboth := henv.2.invariant
    (fun store => store.Once document node ∧ (node ∈ writesOf s.shared.history → document.dedupKey ∈ store.seen))
    ⟨h, hordered.2⟩ fun store w _ hstore hw hstep => by
      cases hstep
      refine ⟨?_, fun hsent => seen_handle (hstore.2 hsent)⟩
      rcases hw with hsent | hother
      · rcases hordered.1 w hsent with rfl | rfl
        · exact once_document hstore.1 hkeys
        · exact once_node hstore.1 (hstore.2 hsent)
      · exact once_other hstore.1 (hothers w hother).1 (hothers w hother).2
  exact hboth.1

end

end ServedAux

/-- What a call of `put_document` runs in beside such a server. -/
def Served.system (client : Client) (others : Write → Prop) : System (Op Write) (Ans Write Unit) Served where
  act := Served.act client
  env := Served.env others
  inv s := s.shared.Sound
  env_refl _ := ⟨⟨rfl, .refl⟩, .refl⟩
  env_trans h h' := ⟨⟨h'.1.1.trans h.1.1, h.1.2.trans h'.1.2⟩, h.2.trans (h'.2.mono fun _ _ hw => h.1.1 ▸ hw)⟩
  env_inv h h' := ReplayAux.sound_env h h'.1
  act_inv h h' := ReplayAux.sound_act h h'.1

namespace ServedAux

open DocumentAux

variable {client : Client} {others : Write → Prop} {s t : Served} {document node : Write} {α : Type}
  {p q : Call Write Unit α}

/-- What holds between the calls. -/
structure Kept (document node : Write) (s : Served) : Prop where
  sound : s.shared.Sound
  honest : s.Honest
  ordered : s.Ordered document node
  once : s.store.Once document node

/-- The client takes no notice of the store. -/
theorem runs_shared (h : Runs (Served.system client others) p s q t) :
    Runs (client.system Write Unit) p s.shared q t.shared :=
  h.map Served.shared (fun _ _ _ _ (hact : Served.act client _ _ _ _) => hact.1)
    (fun _ _ (henv : Served.env others _ _) => henv.1)

/-- Where the record of a call follows the script, the two writes stay in order. -/
theorem ordered_of_script {new : List (Entry Write Unit)} (hs : s.Ordered document node)
    (hseen : ∀ key ∈ s.store.seen, key ∈ t.store.seen) (ht : t.Honest) (hne : node ≠ document)
    (hnew : t.shared.history = s.shared.history ++ new) (hscript : Script document node new) : t.Ordered document node := by
  refine ⟨?_, ?_⟩
  · intro w hw
    rw [hnew, writesOf_append, List.mem_append] at hw
    exact hw.elim (hs.1 w) (mem_script hscript)
  · intro hw
    rw [hnew, writesOf_append, List.mem_append] at hw
    rcases hw with hw | hw
    · exact hseen _ (hs.2 hw)
    · obtain ⟨first, rest, rfl, hacked⟩ := acked_of_script hscript hne hw
      exact known_of_acked ht hnew hacked

/-- A call whose record follows the script keeps all that, and known keys known. -/
theorem kept_run {Q : α → Shared Write Unit → Prop} (h : Runs (Served.system client others) p s q t)
    (hp : wp (client.system Write Unit)
      (fun t => ∃ new, t.history = s.shared.history ++ new ∧ Script document node new) Q p s.shared)
    (hkeys : document.dedupKey ≠ node.dedupKey)
    (hothers : ∀ w, others w → w.dedupKey ≠ document.dedupKey ∧ w.dedupKey ≠ node.dedupKey)
    (hs : Kept document node s) : Kept document node t ∧ ∀ key ∈ s.store.seen, key ∈ t.store.seen := by
  have hne : node ≠ document := fun heq => hkeys (congrArg Write.dedupKey heq.symm)
  induction h with
  | refl => exact ⟨hs, fun _ hkey => hkey⟩
  | env hrun henv ih =>
    rename_i q t u
    have henv : Served.env others t u := henv
    obtain ⟨ht, hseen⟩ := ih
    obtain ⟨hhonest, hseen'⟩ := honest_env ht.honest henv
    have hknown : ∀ key ∈ s.store.seen, key ∈ u.store.seen := fun key hkey => hseen' _ (hseen _ hkey)
    obtain ⟨new, hnew, hscript⟩ := (runs_shared (hrun.env henv)).guarantee hs.sound hp
    exact ⟨⟨ReplayAux.sound_env ht.sound henv.1, hhonest, ordered_of_script hs.ordered hknown hhonest hne hnew hscript,
      once_env ht.once ht.ordered hkeys hothers henv⟩, hknown⟩
  | act hrun hact ih =>
    rename_i op next answer t u
    have hact : Served.act client op t answer u := hact
    obtain ⟨ht, hseen⟩ := ih
    have hhonest := honest_act ht.honest hact
    have hknown : ∀ key ∈ s.store.seen, key ∈ u.store.seen := fun key hkey => hact.2.1 ▸ hseen key hkey
    obtain ⟨new, hnew, hscript⟩ := (runs_shared (hrun.act hact)).guarantee hs.sound hp
    exact ⟨⟨ReplayAux.sound_act ht.sound hact.1, hhonest, ordered_of_script hs.ordered hknown hhonest hne hnew hscript,
      hact.2.1 ▸ ht.once⟩, hknown⟩

/-- When the record of a call is complete, both writes have been applied once, in order. -/
theorem applied_of_complete {earlier record : List (Entry Write Unit)} (ht : Kept document node t)
    (hhist : t.shared.history = earlier ++ record) (hcomplete : Complete document node record) :
    t.store.appliedOf document node = [document, node] := by
  obtain ⟨first, rest, rfl, _, hacked, _, hacked'⟩ := hcomplete
  have hdocument : document.dedupKey ∈ t.store.seen := known_of_acked ht.honest hhist hacked
  have hsplit : t.shared.history = (earlier ++ first) ++ (rest ++ []) := by rw [hhist, List.append_nil, List.append_assoc]
  have hnode : node.dedupKey ∈ t.store.seen := known_of_acked ht.honest hsplit hacked'
  rw [ht.once.1, known_pos hdocument, known_pos hnode]
  rfl

end ServedAux

end RociaSdk
