import RociaSdk.Client
import RociaSdk.Lemmas.CellsAux

/-!
# Calls beside the token manager

What a call of `refresh_now` that answers `Ok` says about the header from then on, the system a call with a replay runs in,
and what each of its pieces does there.
-/

namespace RociaSdk

open Interleave

namespace TokenManager

open CellsAux

/-- A token that a completed attempt has installed, or one that has been written to the header by an attempt about to complete,
or the first one. -/
def Installed (m : TokenManager) (token : Token) : Prop :=
  token.attempt = 0 ∨ m.log[token.attempt - 1]? = some (.ok token) ∨
    ∃ c, m.phase c = .recording (.ok token) ∨ m.phase c = .bumping (.ok token)

namespace ReplayAux

variable {first token : Token} {m m' : TokenManager} {e : Event} {c : Nat}

/-- A call that begins has seen the attempts of the log. -/
theorem begun_begin (h : m.step (.begin c) = some m') : m'.begun c = m.log.length ∧ m'.phase c ≠ .idle := by
  cases step_cases h with
  | begin _ _ => simp [TokenManager.begin]

/-- A call that has begun stays so, with what it read. -/
theorem begun_step (h : m.Step e m') (hc : m.phase c ≠ .idle) : m'.phase c ≠ .idle ∧ m'.begun c = m.begun c := by
  by_cases hcall : e.call? = some c
  · cases h with
    | begin _ hp =>
      cases hcall
      exact absurd hp hc
    | requestRefresh => cases hcall
    | elapse d => cases hcall
    | _ =>
      cases hcall
      simp [writeLifetime, writeHeader, TokenManager.record, TokenManager.bump, release, abandon]
  · obtain ⟨hphase, hbegun⟩ := h.frame hcall
    exact ⟨by rw [hphase]; exact hc, hbegun⟩

/-- A call that has begun stays so in every run. -/
theorem begun_run (h : Transition.Reaches step m m') (hc : m.phase c ≠ .idle) : m'.begun c = m.begun c := by
  have hkept := h.invariant (fun t => t.phase c ≠ .idle ∧ t.begun c = m.begun c) ⟨hc, rfl⟩ fun t e u ht _ hs => by
    obtain ⟨hphase, hbegun⟩ := begun_step (step_cases hs) ht.1
    exact ⟨hphase, hbegun.trans ht.2⟩
  exact hkept.2

/-- The log only grows in a run. -/
theorem log_run (h : Transition.Reaches step m m') : m.log <+: m'.log :=
  h.invariant (fun t => m.log <+: t.log) (List.prefix_refl _) fun _ _ _ ht _ hs => ht.trans (step_cases hs).log_isPrefix

/-- The last token is the first one, or one that the log has under its number. -/
theorem lastToken_logged (first : Token) (log : List (Except AuthError Token))
    (hnumbered : ∀ i token, log[i]? = some (.ok token) → token.attempt = i + 1) :
    lastToken first log = first ∨ log[(lastToken first log).attempt - 1]? = some (.ok (lastToken first log)) := by
  induction log using List.reverseRecOn with
  | nil => exact Or.inl rfl
  | append_singleton log outcome ih =>
    cases outcome with
    | ok token =>
      rw [lastToken_ok, hnumbered log.length token (by simp)]
      exact Or.inr (by simp)
    | error e =>
      rw [lastToken_error]
      refine (ih fun i token ht => hnumbered i token ?_).imp id ?_
      · rw [List.getElem?_append_left (List.getElem?_eq_some_iff.1 ht).1, ht]
      · intro hlog
        rw [List.getElem?_append_left (List.getElem?_eq_some_iff.1 hlog).1, hlog]

/-- The last token is at least as new as every token of the log. -/
theorem lt_lastToken (log : List (Except AuthError Token)) {k : Nat}
    (hnumbered : ∀ i token, log[i]? = some (.ok token) → token.attempt = i + 1) (hk : log[k]? = some (.ok token)) :
    k < (lastToken first log).attempt := by
  induction log using List.reverseRecOn with
  | nil => simp at hk
  | append_singleton log outcome ih =>
    have hlt := (List.getElem?_eq_some_iff.1 hk).1
    rw [List.length_append, List.length_singleton] at hlt
    cases outcome with
    | ok last =>
      rw [lastToken_ok, hnumbered log.length last (by simp)]
      omega
    | error e =>
      rw [lastToken_error]
      rcases Nat.lt_or_ge k log.length with hk' | hk'
      · rw [List.getElem?_append_left hk'] at hk
        refine ih (fun i token ht => hnumbered i token ?_) hk
        rw [List.getElem?_append_left (List.getElem?_eq_some_iff.1 ht).1, ht]
      · rw [List.getElem?_append_right hk', Nat.sub_eq_zero_of_le (by omega)] at hk
        cases hk

/-- The header is the last token, or that of the lock holder, which is about to complete. -/
theorem header_eq (h : m.Inv first) :
    m.header = lastToken first m.log ∨ ∃ c token, m.header = token ∧ m.holder.token? = some token ∧
      (m.phase c = .recording (.ok token) ∨ m.phase c = .bumping (.ok token)) := by
  have hcells := congrArg Prod.snd h.cells
  cases hl : m.refreshLock with
  | none =>
    rw [holder_of_free hl] at hcells
    exact Or.inl hcells
  | some c =>
    rw [holder_of_lock hl] at hcells ⊢
    generalize hp : m.phase c = p at hcells
    cases p with
    | recording outcome =>
      cases outcome with
      | ok token => exact Or.inr ⟨c, token, hcells, rfl, Or.inl hp⟩
      | error e => exact Or.inl hcells
    | bumping outcome =>
      cases outcome with
      | ok token => exact Or.inr ⟨c, token, hcells, rfl, Or.inr hp⟩
      | error e => exact Or.inl hcells
    | _ => exact Or.inl hcells

/-- The token in the header is installed. -/
theorem installed_header (h : m.Inv first) (hfirst : first.attempt = 0) : m.Installed m.header := by
  rcases header_eq h with heq | ⟨c, token, heq, _, hp⟩
  · rw [heq]
    rcases lastToken_logged first m.log h.numbered with hlast | hlog
    · exact Or.inl ((congrArg Token.attempt hlast).trans hfirst)
    · exact Or.inr (Or.inl hlog)
  · exact Or.inr (Or.inr ⟨c, heq ▸ hp⟩)

/-- The header is newer than every attempt of the log that has succeeded. -/
theorem lt_header (h : m.Inv first) {k : Nat} (hk : m.log[k]? = some (.ok token)) : k < m.header.attempt := by
  rcases header_eq h with heq | ⟨c, token', heq, ht, _⟩
  · rw [heq]
    exact lt_lastToken m.log h.numbered hk
  · rw [heq, h.fresh token' ht]
    exact Nat.lt_succ_of_lt (List.getElem?_eq_some_iff.1 hk).1

/-- An installed token stays installed. -/
theorem installed_step (hi : m.Inv first) (hs : m.Step e m') (h : m.Installed token) : m'.Installed token := by
  rcases h with hzero | hlog | ⟨c, hp⟩
  · exact Or.inl hzero
  · exact Or.inr (Or.inl (getElem?_of_isPrefix hs.log_isPrefix hlog))
  · by_cases hcall : e.call? = some c
    · have hlock : (m.phase c).holdsLock = true := by rcases hp with hp | hp <;> rw [hp] <;> rfl
      have hfresh := hi.fresh token (by rw [hi.holder_eq hlock]; rcases hp with hp | hp <;> rw [hp] <;> rfl)
      cases hs with
      | record _ outcome hp' =>
        cases hcall
        rw [hp'] at hp
        simp only [Phase.recording.injEq, reduceCtorEq, or_false] at hp
        exact Or.inr (Or.inr ⟨c, Or.inr (by simp [TokenManager.record, hp])⟩)
      | bump _ outcome hp' =>
        cases hcall
        rw [hp'] at hp
        simp only [Phase.bumping.injEq, reduceCtorEq, false_or] at hp
        exact Or.inr (Or.inl (by simp [TokenManager.bump, hp, hfresh]))
      | requestRefresh => cases hcall
      | elapse d => cases hcall
      | _ =>
        cases hcall
        simp_all
    · rw [← (hs.frame hcall).1] at hp
      exact Or.inr (Or.inr ⟨c, hp⟩)

/-- A call of `refresh_now` that returns `Ok` leaves a header newer than all attempts that had completed when it began. -/
theorem renewed (h : m.Inv first) (ha : m.Answered) {fetched : Bool} (hp : m.phase c = .returned fetched (.ok ())) :
    m.begun c < m.header.attempt := by
  obtain ⟨k, outcome, hle, hk, hanswer⟩ := ha.returned c fetched _ hp
  cases outcome with
  | ok token => exact Nat.lt_of_le_of_lt hle (lt_header h hk)
  | error e => cases hanswer

end ReplayAux

end TokenManager

open TokenManager

/-! ## The system -/

variable {Req Resp : Type}

/-- What holds whenever a call takes a step: the manager is a reachable one, and every header stamped is installed. -/
structure Shared.Sound (s : Shared Req Resp) : Prop where
  manager : ∃ first : Token, first.attempt = 0 ∧ s.manager.Inv first ∧ s.manager.Answered
  installed : ∀ request token, .sent request (some token) ∈ s.history → s.manager.Installed token

namespace ReplayAux

open TokenManager.ReplayAux

variable {client : Client} {s t : Shared Req Resp} {m m' : TokenManager} {history : List (Entry Req Resp)}

/-- A call begins in a sound state. -/
theorem sound_of_reachable {m : TokenManager} (h : m.Reachable) : Shared.Sound (⟨m, []⟩ : Shared Req Resp) := by
  obtain ⟨parser, now, token, header, _, hrun⟩ := h
  have hinv := inv_new parser now token header
  exact ⟨⟨_, rfl, hinv.run hrun, (answered_new parser now token header).run hinv hrun⟩, nofun⟩

/-- A step of the manager keeps the state sound. -/
theorem sound_step {e : TokenManager.Event} (h : Shared.Sound ⟨m, history⟩) (hs : m.Step e m') :
    Shared.Sound ⟨m', history⟩ := by
  obtain ⟨first, hfirst, hi, ha⟩ := h.manager
  exact ⟨⟨first, hfirst, hs.inv hi, hs.answered hi ha⟩, fun request token hmem =>
    installed_step hi hs (h.installed request token hmem)⟩

/-- The environment keeps the state sound. -/
theorem sound_env (h : s.Sound) (henv : s.env t) : t.Sound := by
  obtain ⟨m, history⟩ := t
  obtain ⟨rfl, hrun⟩ := henv
  exact hrun.invariant (fun m => Shared.Sound ⟨m, s.history⟩) h fun _ _ _ ht _ hs => sound_step ht (step_cases hs)

/-- An entry that is not a request keeps the state sound. -/
theorem sound_entry (h : s.Sound) {entry : Entry Req Resp} (hentry : ∀ request token, entry ≠ .sent request (some token)) :
    Shared.Sound { s with history := s.history ++ [entry] } := by
  refine ⟨h.manager, fun request token hmem => h.installed request token ?_⟩
  rw [List.mem_append, List.mem_singleton] at hmem
  exact hmem.resolve_right fun heq => hentry request token heq.symm

/-- Every operation keeps the state sound. -/
theorem sound_act {op : Op Req} {answer : Ans Req Resp op} (h : s.Sound) (hact : client.act op s answer t) : t.Sound := by
  cases op with
  | send request =>
    obtain rfl := hact
    obtain ⟨first, hfirst, hi, ha⟩ := h.manager
    refine ⟨⟨first, hfirst, hi, ha⟩, ?_⟩
    intro request' token hmem
    rw [List.mem_append, List.mem_singleton, Entry.sent.injEq] at hmem
    rcases hmem with hmem | ⟨_, hstamp⟩
    · exact h.installed request' token hmem
    · unfold Client.stamp at hstamp
      rw [eq_comm, Option.ite_none_right_eq_some, Option.some.injEq] at hstamp
      rw [← hstamp.2]
      exact installed_header hi hfirst
  | answer =>
    obtain rfl := hact
    exact sound_entry h nofun
  | answerWithin timeout =>
    obtain rfl := hact
    exact sound_entry h nofun
  | isFresh margin =>
    obtain ⟨_, rfl⟩ := hact
    exact h
  | begin =>
    obtain ⟨m, hm, rfl⟩ := hact
    exact sound_step h (step_cases hm)
  | refreshed call =>
    obtain ⟨_, rfl⟩ := hact
    exact sound_entry h nofun
  | uuid =>
    obtain rfl := hact
    exact h

end ReplayAux

/-- The system a call of the client runs in. -/
def Client.system (client : Client) (Req Resp : Type) : System (Op Req) (Ans Req Resp) (Shared Req Resp) where
  act := client.act
  env := Shared.env
  inv := Shared.Sound
  env_refl _ := ⟨rfl, .refl⟩
  env_trans h h' := ⟨h'.1.trans h.1, h.2.trans h'.2⟩
  env_inv := ReplayAux.sound_env
  act_inv := ReplayAux.sound_act

end RociaSdk
