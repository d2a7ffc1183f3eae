import RociaSdk.HostedCalls
import RociaSdk.Lemmas.DocumentAux
import RociaSdk.Lemmas.FileAux
import RociaSdk.Lemmas.HostedBatchAux

/-!
# What calls on the wire come to

At the server, writes that are delivered in the order of a script land in that order and once (`landedUnder_deliver`). A call keeps to
a script if it sends each message only once all before it have been acknowledged (`Keeps`); then its messages are delivered in that
order, so that what has landed is always a beginning of the script (`kept_run`).
-/

namespace RociaSdk

open Interleave

namespace Server

namespace HostedCallsAux

open HostedBatchAux StoreAux

/-! ## At the server -/

section
variable {server : State} {calls : List WriteCall} {events : List Event} {call : WriteCall}

/-- A beginning of a list without repetitions that has all before one of its elements, but not this one, ends there. -/
theorem eq_of_prefix {α : Type} {whole first rest l : List α} {x : α} (hnodup : whole.Nodup) (hwhole : whole = first ++ x :: rest)
    (hl : l <+: whole) (hfirst : ∀ y ∈ first, y ∈ l) (hx : x ∉ l) : l = first := by
  have hinit : first ++ [x] <+: whole := ⟨rest, by simp [hwhole]⟩
  rcases List.prefix_or_prefix_of_prefix hl hinit with h | h
  · rcases List.prefix_concat_iff.1 (by simpa using h) with heq | h
    · exact absurd (heq ▸ List.mem_append_right _ (List.mem_singleton_self x)) hx
    · refine h.eq_of_length_le ?_
      have hnodup' : first.Nodup := by
        rw [hwhole] at hnodup
        exact (List.nodup_append.1 hnodup).1
      exact (hnodup'.subperm hfirst).length_le
  · exact absurd (h.subset (List.mem_append_right _ (List.mem_singleton_self x))) hx

theorem mem_landedUnder :
    call ∈ server.landedUnder calls events ↔ call ∈ server.landed events ∧ call.marker ∈ calls.map WriteCall.marker := by
  simp [State.landedUnder]

theorem landedUnder_append (server : State) (calls : List WriteCall) (events later : List Event) :
    server.landedUnder calls (events ++ later) =
      server.landedUnder calls events ++
        ((server.run events).landed later).filter fun call => call.marker ∈ calls.map WriteCall.marker := by
  rw [State.landedUnder, landed_append, List.filter_append, ← State.landedUnder]

/-- What has landed stays. -/
theorem landedUnder_mono {later : List Event} (h : events <+: later) : server.landedUnder calls events <+: server.landedUnder calls later := by
  obtain ⟨more, rfl⟩ := h
  rw [landedUnder_append]
  exact List.prefix_append _ _

/-- A marker of the calls that is known is that of one that has landed. -/
theorem landed_of_absorbs (h : Markable server WriteCall.marker calls) (hinit : server.landedUnder calls events <+: calls)
    (hcall : call ∈ calls) (habsorbs : (server.run events).absorbsReplay call.marker = true) :
    call ∈ server.landedUnder calls events := by
  obtain ⟨marker, hmarker⟩ := Option.isSome_iff_exists.1 (h.marked call hcall)
  rw [hmarker, absorbs_iff] at habsorbs
  rcases habsorbs with happlied | ⟨landed, hlanded, hsame⟩
  · exact absurd happlied (h.fresh call hcall marker hmarker)
  · have hunder : landed ∈ server.landedUnder calls events :=
      mem_landedUnder.2 ⟨hlanded, List.mem_map.2 ⟨call, hcall, hmarker.trans hsame.symm⟩⟩
    have heq : landed = call :=
      List.inj_on_of_nodup_map h.distinct (hinit.subset hunder) hcall (hsame.trans hmarker.symm)
    exact heq ▸ hunder

/-- One that has landed has its marker known. -/
theorem absorbs_of_landed (h : Markable server WriteCall.marker calls) (hcall : call ∈ calls)
    (hlanded : call ∈ server.landedUnder calls events) : (server.run events).absorbsReplay call.marker = true := by
  obtain ⟨marker, hmarker⟩ := Option.isSome_iff_exists.1 (h.marked call hcall)
  rw [hmarker, absorbs_iff]
  exact .inr ⟨call, (mem_landedUnder.1 hlanded).1, hmarker⟩

/-- A call of the script that is delivered when all before it have landed lands next, or changes nothing. -/
theorem landedUnder_deliver (h : Markable server WriteCall.marker calls) (hinit : server.landedUnder calls events <+: calls)
    (before after : List WriteCall) (hcalls : calls = before ++ call :: after)
    (hbefore : ∀ earlier ∈ before, earlier ∈ server.landedUnder calls events) (authorization : Option String) :
    server.landedUnder calls (events ++ [.call authorization call]) <+: calls := by
  have hcall : call ∈ calls := hcalls ▸ List.mem_append_right before (List.mem_cons_self ..)
  rw [landedUnder_append]
  simp only [State.landed, List.append_nil]
  cases hanswer : (call.handle authorization (server.run events)).1 with
  | error e => simpa [lands_of_error hanswer] using hinit
  | ok u =>
    rw [lands_of_ok hanswer]
    cases habsorbs : (server.run events).absorbsReplay call.marker with
    | true => simpa using hinit
    | false =>
      have hnot : call ∉ server.landedUnder calls events := fun hmem => by
        rw [absorbs_of_landed h hcall hmem] at habsorbs
        cases habsorbs
      have heq := eq_of_prefix (h.distinct.of_map _) hcalls hinit hbefore hnot
      refine ⟨after, ?_⟩
      rw [heq]
      simp [hcalls]

/-- Events that spare the markers land nothing under them. -/
theorem landedUnder_spares {event : Event} (hspares : event.Spares WriteCall.marker calls) :
    server.landedUnder calls (events ++ [event]) = server.landedUnder calls events := by
  rw [landedUnder_append]
  simp only [State.landed, List.append_nil]
  cases hlands : event.lands (server.run events) with
  | none => simp
  | some call =>
    obtain ⟨authorization, heq⟩ := call_of_lands hlands
    simpa using fun item hitem hmarker => hspares authorization call heq item hitem hmarker.symm

/-- What the server has acknowledged has landed. -/
theorem landed_of_acknowledged (h : Markable server WriteCall.marker calls) (hinit : server.landedUnder calls events <+: calls)
    (hcall : call ∈ calls) (hacknowledged : Acknowledged server events call) : call ∈ server.landedUnder calls events := by
  obtain ⟨before, authorization, after, rfl, hok⟩ := hacknowledged
  have hbefore : server.landedUnder calls before <+: server.landedUnder calls (before ++ .call authorization call :: after) :=
    landedUnder_mono (List.prefix_append _ _)
  cases habsorbs : (server.run before).absorbsReplay call.marker with
  | true => exact hbefore.subset (landed_of_absorbs h (hbefore.trans hinit) hcall habsorbs)
  | false =>
    refine mem_landedUnder.2 ⟨?_, List.mem_map_of_mem hcall⟩
    rw [landed_append]
    simp [State.landed, lands_of_ok hok, habsorbs]

end

end HostedCallsAux

/-! ## The systems -/

/-- The system a call of the client runs in, by what is fixed of the UUIDs it draws. -/
def drawing (client : Client) (fixed : Option String) (Req Resp : Type) : System (Op Req) (Ans Req Resp) (Shared Req Resp) where
  act op s answer t := client.act op s answer t ∧ Draws fixed op answer
  env := Shared.env
  inv := Shared.Sound
  env_refl := (client.system Req Resp).env_refl
  env_trans := (client.system Req Resp).env_trans
  env_inv := ReplayAux.sound_env
  act_inv h hact := ReplayAux.sound_act h hact.1

/-- The system it runs in beside the server. -/
def Wired.system {Req : Type} (client : Client) (server : State) (fixed : Option String) (write : Req → WriteCall) (script : List Req) :
    System (Op Req) (Ans Req Unit) (Wired Req) where
  act op s answer t := Wired.act client server write op s answer t ∧ Draws fixed op answer
  env := Wired.env write script
  inv s := s.shared.Sound
  env_refl _ := ⟨⟨rfl, .refl⟩, [], (List.append_nil _).symm, nofun⟩
  env_trans := by
    rintro s t u ⟨⟨hhist, hst⟩, events, hevents, hallowed⟩ ⟨⟨hhist', htu⟩, events', hevents', hallowed'⟩
    refine ⟨⟨hhist'.trans hhist, hst.trans htu⟩, events ++ events', by rw [hevents', hevents, List.append_assoc], ?_⟩
    intro event hevent
    rcases List.mem_append.1 hevent with h | h
    · exact hallowed event h
    · exact hhist ▸ hallowed' event h
  env_inv h henv := ReplayAux.sound_env h henv.1
  act_inv h hact := ReplayAux.sound_act h hact.1.1

namespace HostedCallsAux

variable {Req α : Type} {client : Client} {server : State} {fixed : Option String} {write : Req → WriteCall} {script : List Req}
  {message : Req} {history record first rest : List (Entry Req Unit)}

/-! ## The record -/

/-- A record has the acknowledgement of a message. -/
def AckedIn (message : Req) (record : List (Entry Req Unit)) : Prop := ∃ first, first <+: record ∧ Acked message () first

/-- A record keeps to a script: what it sends is of the script, and is sent once all before it have been acknowledged. -/
def Keeps (script : List Req) (record : List (Entry Req Unit)) : Prop :=
  ∀ before request stamp rest, record = before ++ .sent request stamp :: rest →
    ∃ earlier later, script = earlier ++ request.message :: later ∧ ∀ message ∈ earlier, AckedIn message before

theorem sentIn_append (history more : List (Entry Req Unit)) : sentIn (history ++ more) = sentIn history ++ sentIn more :=
  List.filterMap_append

/-- A message that has been sent is in the record. -/
theorem mem_sentIn : message ∈ sentIn history ↔
    ∃ before request stamp rest, history = before ++ .sent request stamp :: rest ∧ request.message = message := by
  unfold sentIn
  rw [List.mem_filterMap]
  constructor
  · rintro ⟨entry, hmem, hentry⟩
    cases entry with
    | sent request stamp =>
      obtain ⟨before, rest, rfl⟩ := List.append_of_mem hmem
      exact ⟨before, request, stamp, rest, rfl, Option.some.inj hentry⟩
    | answered answer completed => cases hentry
    | refreshed answer => cases hentry
  · rintro ⟨before, request, stamp, rest, rfl, rfl⟩
    exact ⟨_, List.mem_append_right before (List.mem_cons_self ..), rfl⟩

/-- A record that has sent nothing keeps to any script. -/
theorem keeps_nil (script : List Req) : Keeps script ([] : List (Entry Req Unit)) := fun before _ _ _ h =>
  absurd h.symm (List.append_ne_nil_of_right_ne_nil before (List.cons_ne_nil _ _))

/-- A record with one message only keeps to the script of it. -/
theorem keeps_of_only (h : Only message record) : Keeps [message] record := by
  rintro before request stamp rest rfl
  refine ⟨[], [], ?_, nofun⟩
  rw [h request stamp (List.mem_append_right before (List.mem_cons_self ..))]
  rfl

/-! ## Runs on the wire -/

/-- Each acknowledgement of the record is of the message sent last before it, and that has landed. -/
def Honest (server : State) (write : Req → WriteCall) (script : List Req) (s : Wired Req) : Prop :=
  ∀ before completed rest, s.shared.history = before ++ .answered (some (.ok ())) completed :: rest →
    ∃ message, (sentIn before).getLast? = some message ∧ write message ∈ server.landedUnder (script.map write) s.events

/-- What has been sent is of the script, and all before it have landed. -/
def Ordered (server : State) (write : Req → WriteCall) (script : List Req) (s : Wired Req) : Prop :=
  ∀ message ∈ sentIn s.shared.history, ∃ earlier later, script = earlier ++ message :: later ∧
    ∀ before ∈ earlier, write before ∈ server.landedUnder (script.map write) s.events

/-- What holds on the wire between the steps of calls that keep to the script. -/
structure Kept (server : State) (write : Req → WriteCall) (script : List Req) (s : Wired Req) : Prop where
  sound : s.shared.Sound
  isPrefix : server.landedUnder (script.map write) s.events <+: script.map write
  ordered : Ordered server write script s
  honest : Honest server write script s

variable {s t : Wired Req} {p q : Call Req Unit α}

/-- The calls of a script can be told apart by their markers. -/
theorem markable_map (h : Markable server (fun message => (write message).marker) script) :
    Markable server WriteCall.marker (script.map write) where
  marked call hcall := by
    obtain ⟨message, hmessage, rfl⟩ := List.mem_map.1 hcall
    exact h.marked message hmessage
  distinct := by simpa [List.map_map, Function.comp_def] using h.distinct
  fresh call hcall := by
    obtain ⟨message, hmessage, rfl⟩ := List.mem_map.1 hcall
    exact h.fresh message hmessage

/-- What has been acknowledged of a record has landed. -/
theorem Honest.landed (h : Honest server write script t) (hhist : t.shared.history = history ++ (first ++ rest))
    (hacked : AckedIn message first) : write message ∈ server.landedUnder (script.map write) t.events := by
  obtain ⟨acked, ⟨more, rfl⟩, before, request, stamp, completed, rfl, hmessage⟩ := hacked
  obtain ⟨last, hlast, hlanded⟩ := h (history ++ before ++ [.sent request stamp]) completed (more ++ rest) (by simp [hhist])
  have heq : last = message := by
    rw [sentIn_append] at hlast
    simpa [sentIn, sent?, hmessage, eq_comm] using hlast
  exact heq ▸ hlanded

/-- A record with one entry more is honest if that entry is. -/
theorem Honest.entry {entry : Entry Req Unit} (h : Honest server write script s)
    (hhist : t.shared.history = s.shared.history ++ [entry]) (hevents : t.events = s.events)
    (hentry : ∀ completed, entry = .answered (some (.ok ())) completed →
      ∃ message, (sentIn s.shared.history).getLast? = some message ∧
        write message ∈ server.landedUnder (script.map write) s.events) : Honest server write script t := by
  intro before completed rest hat
  rw [hhist] at hat
  rw [hevents]
  rcases List.eq_nil_or_concat rest with rfl | ⟨rest, last, rfl⟩
  · obtain ⟨rfl, hlast⟩ := List.append_inj' hat rfl
    exact hentry completed (List.singleton_inj.1 hlast)
  · rw [List.concat_eq_append, ← List.cons_append, ← List.append_assoc] at hat
    exact h before completed rest (List.append_inj' hat rfl).1

/-- An operation of a call keeps the record honest. -/
theorem Kept.honest_act {op : Op Req} {answer : Ans Req Unit op} (hm : Markable server (fun message => (write message).marker) script)
    (h : Kept server write script s) (hact : Wired.act client server write op s answer t) : Honest server write script t := by
  obtain ⟨hact, hevents, hacknowledges⟩ := hact
  have hacked : Wired.Acknowledges op answer → ∃ message, (sentIn s.shared.history).getLast? = some message ∧
      write message ∈ server.landedUnder (script.map write) s.events := by
    intro hop
    obtain ⟨message, hlast, hacknowledged⟩ := hacknowledges hop
    obtain ⟨earlier, later, hscript, -⟩ := h.ordered message (List.mem_of_getLast? hlast)
    refine ⟨message, hlast, landed_of_acknowledged (markable_map hm) h.isPrefix (List.mem_map_of_mem ?_) hacknowledged⟩
    exact hscript ▸ List.mem_append_right earlier (List.mem_cons_self ..)
  have hsame : t.shared.history = s.shared.history → Honest server write script t := by
    intro hhist before completed rest hat
    rw [hevents]
    exact h.honest before completed rest (hhist ▸ hat)
  cases op with
  | send request => exact h.honest.entry (congrArg Shared.history hact) hevents nofun
  | answer =>
    refine h.honest.entry (congrArg Shared.history hact) hevents ?_
    intro completed heq
    cases heq
    exact hacked rfl
  | answerWithin timeout =>
    refine h.honest.entry (congrArg Shared.history hact) hevents ?_
    intro completed heq
    cases heq
    exact hacked rfl
  | isFresh margin => exact hsame (congrArg Shared.history hact.2)
  | begin =>
    obtain ⟨m, _, heq⟩ := hact
    exact hsame (by rw [heq])
  | refreshed call => exact h.honest.entry (congrArg Shared.history hact.2) hevents nofun
  | uuid => exact hsame (congrArg Shared.history hact)

/-- The environment keeps the record honest. -/
theorem Honest.env (h : Honest server write script s) (henv : Wired.env write script s t) : Honest server write script t := by
  obtain ⟨⟨hhist, -⟩, events, hevents, -⟩ := henv
  intro before completed rest hat
  obtain ⟨message, hlast, hlanded⟩ := h before completed rest (hhist ▸ hat)
  exact ⟨message, hlast, (landedUnder_mono ⟨events, hevents.symm⟩).subset hlanded⟩

/-- Late deliveries and what others do land nothing out of order. -/
theorem Kept.isPrefix_env (hm : Markable server (fun message => (write message).marker) script) (h : Kept server write script s)
    (henv : Wired.env write script s t) : server.landedUnder (script.map write) t.events <+: script.map write := by
  obtain ⟨-, events, hevents, hallowed⟩ := henv
  rw [hevents]
  clear hevents
  induction events using List.reverseRecOn with
  | nil => simpa using h.isPrefix
  | append_singleton events event ih =>
    have ih := ih fun event hevent => hallowed event (List.mem_append_left _ hevent)
    rw [← List.append_assoc]
    rcases hallowed event (List.mem_append_right _ (List.mem_singleton_self _)) with ⟨message, hsent, authorization, rfl⟩ | hspares
    · obtain ⟨earlier, later, hscript, hearlier⟩ := h.ordered message hsent
      refine landedUnder_deliver (markable_map hm) ih (earlier.map write) (later.map write) (by simp [hscript]) ?_ authorization
      intro call hcall
      obtain ⟨before, hbefore, rfl⟩ := List.mem_map.1 hcall
      exact (landedUnder_mono (List.prefix_append _ _)).subset (hearlier before hbefore)
    · rw [landedUnder_spares ?_]
      · exact ih
      · intro authorization call heq item hitem
        obtain ⟨message, hmessage, rfl⟩ := List.mem_map.1 hitem
        exact hspares authorization call heq message hmessage

/-- Where the record of a call keeps to the script, its messages stay in order. -/
theorem Ordered.run {new : List (Entry Req Unit)} (hs : Ordered server write script s) (hevents : s.events <+: t.events)
    (ht : Honest server write script t) (hnew : t.shared.history = s.shared.history ++ new) (hkeeps : Keeps script new) :
    Ordered server write script t := by
  intro message hsent
  rw [hnew, sentIn_append, List.mem_append] at hsent
  rcases hsent with hsent | hsent
  · obtain ⟨earlier, later, hscript, hearlier⟩ := hs message hsent
    exact ⟨earlier, later, hscript, fun before hbefore => (landedUnder_mono hevents).subset (hearlier before hbefore)⟩
  · obtain ⟨before, request, stamp, rest, rfl, rfl⟩ := mem_sentIn.1 hsent
    obtain ⟨earlier, later, hscript, hacked⟩ := hkeeps before request stamp rest rfl
    exact ⟨earlier, later, hscript, fun x hx => ht.landed hnew (hacked x hx)⟩

/-- The client takes no notice of the server. -/
theorem runs_shared (h : Runs (Wired.system client server fixed write script) p s q t) :
    Runs (drawing client fixed Req Unit) p s.shared q t.shared :=
  h.map Wired.shared (fun _ _ _ _ (hact : Wired.act client server write _ _ _ _ ∧ Draws fixed _ _) => ⟨hact.1.1, hact.2⟩)
    (fun _ _ (henv : Wired.env write script _ _) => henv.1)

/-- A call whose record keeps to the script keeps all that. -/
theorem kept_run {Q : α → Shared Req Unit → Prop} (hm : Markable server (fun message => (write message).marker) script)
    (h : Runs (Wired.system client server fixed write script) p s q t)
    (hp : wp (drawing client fixed Req Unit) (fun t => ∃ new, t.history = s.shared.history ++ new ∧ Keeps script new) Q p s.shared)
    (hs : Kept server write script s) : Kept server write script t ∧ s.events <+: t.events := by
  induction h with
  | refl => exact ⟨hs, List.prefix_refl _⟩
  | env hrun henv ih =>
    rename_i q t u
    have henv : Wired.env write script t u := henv
    obtain ⟨ht, hevents⟩ := ih
    obtain ⟨events, hu, -⟩ := henv.2
    have hevents : s.events <+: u.events := hevents.trans ⟨events, hu.symm⟩
    have hhonest := ht.honest.env henv
    obtain ⟨new, hnew, hkeeps⟩ := (runs_shared (hrun.env henv)).guarantee hs.sound hp
    exact ⟨⟨ReplayAux.sound_env ht.sound henv.1, ht.isPrefix_env hm henv, hs.ordered.run hevents hhonest hnew hkeeps, hhonest⟩,
      hevents⟩
  | act hrun hact ih =>
    rename_i op next answer t u
    have hact : Wired.act client server write op t answer u ∧ Draws fixed op answer := hact
    obtain ⟨ht, hevents⟩ := ih
    have hsame : u.events = t.events := hact.1.2.1
    have hevents : s.events <+: u.events := hsame ▸ hevents
    have hhonest := ht.honest_act hm hact.1
    obtain ⟨new, hnew, hkeeps⟩ := (runs_shared (hrun.act hact)).guarantee hs.sound hp
    exact ⟨⟨ReplayAux.sound_act ht.sound hact.1.1, hsame ▸ ht.isPrefix, hs.ordered.run hevents hhonest hnew hkeeps, hhonest⟩,
      hevents⟩

/-! ## Calls that follow a script -/

/-- A call follows a script: its record keeps to it, and when it returns `Ok` all of the script has been acknowledged. -/
def Follows (client : Client) (fixed : Option String) (call : Call Req Unit (Result Unit)) (script : List Req) : Prop :=
  ∀ s : Shared Req Unit, s.Sound →
    wp (drawing client fixed Req Unit) (fun t => ∃ new, t.history = s.history ++ new ∧ Keeps script new)
      (fun result t => ∃ new, t.history = s.history ++ new ∧ Keeps script new ∧
        (result = .ok () → ∀ message ∈ script, AckedIn message new)) call s

/-- The writes of a call that follows a script land in its order, made once or again and again. -/
theorem Follows.lands {call left : Call Req Unit (Result Unit)} {m : TokenManager} (hfollows : Follows client fixed call script)
    (hreach : m.Reachable) (hm : Markable server (fun message => (write message).marker) script)
    (hrepeats : Repeats (Wired.system client server fixed write script) call (.ok ()) ⟨⟨m, []⟩, []⟩ s)
    (hrun : Runs (Wired.system client server fixed write script) call s left t) :
    server.landedUnder (script.map write) t.events <+: script.map write ∧
      (left = pure (.ok ()) → server.landedUnder (script.map write) t.events = script.map write) := by
  have hstart : Kept server write script ⟨⟨m, []⟩, []⟩ :=
    { sound := ReplayAux.sound_of_reachable hreach
      isPrefix := List.nil_prefix
      ordered := nofun
      honest := fun before _ _ hat => absurd hat.symm (List.append_ne_nil_of_right_ne_nil before (List.cons_ne_nil _ _)) }
  have hkept : ∀ {t u : Wired Req} {left : Call Req Unit (Result Unit)}, Kept server write script t →
      Runs (Wired.system client server fixed write script) call t left u → Kept server write script u := fun ht hr =>
    (kept_run hm hr (hfollows _ ht.sound) ht).1
  have hs : Kept server write script s := hrepeats.invariant _ hstart fun t left u ht hr => hkept ht hr
  have ht : Kept server write script t := hkept hs hrun
  refine ⟨ht.isPrefix, ?_⟩
  rintro rfl
  obtain ⟨new, hnew, -, hacked⟩ := (runs_shared hrun).post hs.sound (hfollows _ hs.sound)
  -- All of the script has landed, so the beginning of it that has is the whole.
  refine ht.isPrefix.eq_of_length_le ?_
  refine ((markable_map hm).distinct.of_map _).subperm (fun call hcall => ?_) |>.length_le
  obtain ⟨message, hmessage, rfl⟩ := List.mem_map.1 hcall
  have hhist : t.shared.history = s.shared.history ++ (new ++ []) := by rw [hnew, List.append_nil]
  exact ht.honest.landed hhist (hacked rfl message hmessage)

end HostedCallsAux

end Server

end RociaSdk
