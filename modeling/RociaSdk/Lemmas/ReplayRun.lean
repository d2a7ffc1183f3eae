import RociaSdk.Lemmas.ReplayAux

/-!
# The pieces of a call with a replay

What each piece adds to the record, whatever the rest of the world does meanwhile. Each rule asks of the record what it has to
keep (`H`) at the places the piece stops at, and of what comes next (`Q`) whatever the piece can return.
-/

namespace RociaSdk

open Interleave TokenManager

/-- What an answer comes to for a call with this timeout. -/
def attemptOutcome {Resp : Type} (operation : String) (timeout : Option Nat) :
    Option (Except Status Resp) → Result Resp
  | none => .error (Client.deadlineExceeded operation (timeout.getD 0))
  | some (.error status) =>
    if timeout.isSome && Client.isLocalDeadlineExpired status then
      .error (Client.deadlineExceeded operation (timeout.getD 0))
    else .error (.status operation status)
  | some (.ok response) => .ok response

/-- What a refresh before a stream leaves in the record, if there is one. -/
def refreshes {Req Resp : Type} (pre : Option (Except AuthError Unit)) : List (Entry Req Resp) := pre.toList.map .refreshed

namespace ReplayRun

open CellsAux TokenManager.ReplayAux ReplayAux

variable {Req Resp α : Type} {client : Client} {s t : Shared Req Resp} {H : List (Entry Req Resp) → Prop}

/-- The header is as new as it was, or newer. -/
theorem header_le (hs : s.Sound) (h : Transition.Reaches step s.manager t.manager) :
    s.manager.header.attempt ≤ t.manager.header.attempt := by
  obtain ⟨first, hfirst, hi, _⟩ := hs.manager
  rcases header_newer hi hfirst h with heq | hlt
  · exact Nat.le_of_eq (by rw [heq])
  · exact Nat.le_of_lt hlt

/-- A refresh is recorded, and after an `Ok` the header is newer than all attempts completed before. -/
theorem wp_refreshNow {Q : Except AuthError Unit → Shared Req Resp → Prop} (hi : s.Sound) (hH : H s.history)
    (h : ∀ answer t, t.Sound → Transition.Reaches step s.manager t.manager →
      t.history = s.history ++ [.refreshed answer] →
      (answer = .ok () → s.manager.log.length < t.manager.header.attempt) → H t.history ∧ Q answer t) :
    wp (client.system Req Resp) (fun s => H s.history) Q Client.refreshNow s := by
  refine wp_bind hi (wp_perform fun t hst _ => ⟨hst.1 ▸ hH, ?_⟩)
  rintro call _ ⟨m, hm, rfl⟩ v huv hiv
  have hvs : v.history = s.history := huv.1.trans hst.1
  refine ⟨hvs ▸ hH, wp_perform fun w hvw hiw => ⟨(hvw.1.trans hvs) ▸ hH, ?_⟩⟩
  rintro answer _ ⟨⟨fetched, hp⟩, rfl⟩ x hwx hix
  have hsm : Transition.Reaches step s.manager m := hst.2.tail (.begin call) trivial hm
  have hmw : Transition.Reaches step m w.manager := huv.2.trans hvw.2
  refine h answer x hix ((hsm.trans hmw).trans hwx.2) (hwx.1.trans (by rw [hvw.1, hvs])) ?_
  rintro rfl
  obtain ⟨first, _, hinv, ha⟩ := hiw.manager
  have hbegun := begun_begin hm
  calc s.manager.log.length ≤ t.manager.log.length := (log_run hst.2).length_le
    _ = w.manager.begun call := by rw [begun_run hmw hbegun.2, hbegun.1]
    _ < w.manager.header.attempt := renewed hinv ha hp
    _ ≤ x.manager.header.attempt := header_le hiw hwx.2

/-- The refresh before a stream is recorded if there is one, and its outcome makes no difference. -/
theorem wp_refreshTokenBeforeStream {Q : Unit → Shared Req Resp → Prop} (hi : s.Sound) (hH : H s.history)
    (h : ∀ pre t, t.Sound → Transition.Reaches step s.manager t.manager →
      t.history = s.history ++ refreshes pre → H t.history ∧ Q () t) :
    wp (client.system Req Resp) (fun s => H s.history) Q client.refreshTokenBeforeStream s := by
  have hnone : ∀ t, s.env t → t.Sound → H t.history ∧ Q () t := fun t hst hit =>
    h none t hit hst.2 (hst.1.trans (by simp [refreshes]))
  unfold Client.refreshTokenBeforeStream
  split
  · exact wp_ret hnone
  · refine wp_bind hi (wp_bind hi (wp_perform fun t hst hit => ⟨hst.1 ▸ hH, ?_⟩))
    rintro fresh _ ⟨_, rfl⟩ u htu hiu
    have hsu : s.env u := ⟨htu.1.trans hst.1, hst.2.trans htu.2⟩
    refine ⟨hsu.1 ▸ hH, ?_⟩
    cases fresh with
    | true => exact wp_ret fun v huv hiv => ⟨(huv.1.trans hsu.1) ▸ hH, wp_ret fun w hvw hiw =>
        hnone w ⟨hvw.1.trans (huv.1.trans hsu.1), hsu.2.trans (huv.2.trans hvw.2)⟩ hiw⟩
    | false =>
      refine wp_refreshNow hiu (hsu.1 ▸ hH) ?_
      intro answer v hiv huv hv _
      have hpost : ∀ w, v.env w → w.Sound → H w.history ∧ Q () w := fun w hvw hiw =>
        h (some answer) w hiw ((hsu.2.trans huv).trans hvw.2) (hvw.1.trans (by rw [hv, hsu.1]; rfl))
      refine ⟨(hpost v ⟨rfl, .refl⟩ hiv).1, ?_⟩
      cases answer with
      | error e => exact wp_ret hpost
      | ok u => exact wp_ret hpost

/-- A request is recorded with its stamp. -/
theorem wp_send {Q : Unit → Shared Req Resp → Prop} {R : Option Token → Prop} {request : Request Req}
    (hH : H s.history) (hstamp : ∀ t, s.env t → t.Sound → R (client.stamp t.manager))
    (h : ∀ stamp t, R stamp → t.Sound → Transition.Reaches step s.manager t.manager →
      t.history = s.history ++ [.sent request stamp] → H t.history ∧ Q () t) :
    wp (client.system Req Resp) (fun s => H s.history) Q (Call.send request) s := by
  refine wp_perform fun t hst hit => ⟨hst.1 ▸ hH, ?_⟩
  rintro _ _ rfl u htu hiu
  exact h _ u (hstamp t hst hit) hiu (hst.2.trans htu.2) (htu.1.trans (by rw [hst.1]))

/-- An answer is recorded, with the number of attempts completed by then. -/
theorem wp_answer {Q : Except Status Resp → Shared Req Resp → Prop} (hH : H s.history)
    (h : ∀ answer n t, t.Sound → Transition.Reaches step s.manager t.manager → n ≤ t.manager.log.length →
      t.history = s.history ++ [.answered (some answer) n] → H t.history ∧ Q answer t) :
    wp (client.system Req Resp) (fun s => H s.history) Q Call.answer s := by
  refine wp_perform fun t hst _ => ⟨hst.1 ▸ hH, ?_⟩
  rintro answer _ rfl u htu hiu
  exact h answer _ u hiu (hst.2.trans htu.2) (log_run htu.2).length_le (htu.1.trans (by rw [hst.1]))

/-- An answer in time or the lack of one is recorded, with the number of attempts completed by then. -/
theorem wp_answerWithin {Q : Option (Except Status Resp) → Shared Req Resp → Prop} {timeout : Nat} (hH : H s.history)
    (h : ∀ answer n t, t.Sound → Transition.Reaches step s.manager t.manager → n ≤ t.manager.log.length →
      t.history = s.history ++ [.answered answer n] → H t.history ∧ Q answer t) :
    wp (client.system Req Resp) (fun s => H s.history) Q (Call.answerWithin timeout) s := by
  refine wp_perform fun t hst _ => ⟨hst.1 ▸ hH, ?_⟩
  rintro answer _ rfl u htu hiu
  exact h answer _ u hiu (hst.2.trans htu.2) (log_run htu.2).length_le (htu.1.trans (by rw [hst.1]))

/-- One attempt: a request and its answer are recorded, and the answer decides the outcome. -/
theorem wp_attempt {Q : Result Resp → Shared Req Resp → Prop} {R : Option Token → Prop} {operation : String} {message : Req}
    {timeout : Option Nat} (hi : s.Sound) (hH : H s.history)
    (hstamp : ∀ t, s.env t → t.Sound → R (client.stamp t.manager))
    (hsent : ∀ stamp, R stamp → H (s.history ++ [.sent ⟨message, timeout⟩ stamp]))
    (h : ∀ stamp answer n t, R stamp → t.Sound → Transition.Reaches step s.manager t.manager → n ≤ t.manager.log.length →
      t.history = s.history ++ [.sent ⟨message, timeout⟩ stamp, .answered answer n] →
      H t.history ∧ Q (attemptOutcome operation timeout answer) t) :
    wp (client.system Req Resp) (fun s => H s.history) Q (Client.attempt operation message timeout) s := by
  -- Whatever way the answer is awaited, the record it leaves is the same.
  have hlast : ∀ stamp answer n (t u : Shared Req Resp), R stamp → Transition.Reaches step s.manager t.manager →
      t.history = s.history ++ [.sent ⟨message, timeout⟩ stamp] → Transition.Reaches step t.manager u.manager →
      n ≤ u.manager.log.length → u.history = t.history ++ [.answered answer n] →
      ∀ v, u.env v → v.Sound → H v.history ∧ Q (attemptOutcome operation timeout answer) v := by
    intro stamp answer n t u hR hst hhist htu hn hhist' v huv hiv
    refine h stamp answer n v hR hiv ((hst.trans htu).trans huv.2) (Nat.le_trans hn (log_run huv.2).length_le) ?_
    rw [huv.1, hhist', hhist, List.append_assoc]
    rfl
  cases timeout with
  | none =>
    refine wp_bind hi (wp_send hH hstamp fun stamp t hR hit hst hhist => ⟨hhist ▸ hsent stamp hR, ?_⟩)
    refine wp_bind hit (wp_answer (hhist ▸ hsent stamp hR) ?_)
    intro answer n u hiu htu hn hhist'
    have hpost := hlast stamp (some answer) n t u hR hst hhist htu hn hhist'
    refine ⟨(hpost u ⟨rfl, .refl⟩ hiu).1, wp_ret ?_⟩
    cases answer with
    | ok response => exact hpost
    | error status => exact hpost
  | some timeout =>
    refine wp_bind hi (wp_send hH hstamp fun stamp t hR hit hst hhist => ⟨hhist ▸ hsent stamp hR, ?_⟩)
    refine wp_bind hit (wp_answerWithin (hhist ▸ hsent stamp hR) ?_)
    intro answer n u hiu htu hn hhist'
    have hpost := hlast stamp answer n t u hR hst hhist htu hn hhist'
    refine ⟨(hpost u ⟨rfl, .refl⟩ hiu).1, ?_⟩
    cases answer with
    | none => exact wp_ret hpost
    | some answer =>
      cases answer with
      | ok response => exact wp_ret hpost
      | error status =>
        simp only [attemptOutcome, Option.isSome_some, Bool.true_and] at hpost ⊢
        split
        · rename_i hexpired
          simp only [hexpired, if_true] at hpost
          exact wp_ret hpost
        · rename_i hexpired
          simp only [hexpired, Bool.false_eq_true, if_false] at hpost
          exact wp_ret hpost

/-- One attempt at an upload: its refresh, its requests and their answer are recorded. -/
theorem wp_uploadRaw {s : Shared (List UploadRequest) Unit} {H : List (Entry (List UploadRequest) Unit) → Prop}
    {Q : Except Status Unit → Shared (List UploadRequest) Unit → Prop} {R : Option Token → Prop}
    {requests : List UploadRequest} (hi : s.Sound) (hH : ∀ pre,
      H (s.history ++ refreshes pre))
    (hstamp : ∀ t : Shared (List UploadRequest) Unit, Transition.Reaches step s.manager t.manager → t.Sound →
      R (client.stamp t.manager))
    (hsent : ∀ pre stamp, R stamp → H (s.history ++ refreshes pre ++ [.sent ⟨requests, none⟩ stamp]))
    (h : ∀ pre stamp answer n t, R stamp → t.Sound → Transition.Reaches step s.manager t.manager →
      n ≤ t.manager.log.length →
      t.history = s.history ++ refreshes pre ++ [.sent ⟨requests, none⟩ stamp, .answered (some answer) n] →
      H t.history ∧ Q answer t) :
    wp (client.system (List UploadRequest) Unit) (fun s => H s.history) Q (client.uploadRaw requests) s := by
  refine wp_bind hi (wp_refreshTokenBeforeStream hi (by simpa [refreshes] using hH none)
    fun pre t hit hst hpre => ⟨hpre ▸ hH pre, ?_⟩)
  have hstamp' : ∀ u, t.env u → u.Sound → R (client.stamp u.manager) := fun u htu hiu => hstamp u (hst.trans htu.2) hiu
  refine wp_bind hit (wp_send (hpre ▸ hH pre) hstamp' ?_)
  intro stamp u hR hiu htu hhist
  have hu : H u.history := by
    rw [hhist, hpre]
    exact hsent pre stamp hR
  refine ⟨hu, wp_answer hu ?_⟩
  intro answer n v hiv huv hn hhist'
  refine h pre stamp answer n v hR hiv ((hst.trans htu).trans huv) hn ?_
  rw [hhist', hhist, hpre, List.append_assoc]
  rfl

/-- The refresh for a replay: it runs for an unauthenticated error of a client with a manager, and decides on a replay. -/
theorem wp_refreshForReplay {Q : Bool → Shared Req Resp → Prop} {error : RociaDbError} (hi : s.Sound) (hH : H s.history)
    (hno : ¬(client.authEnabled = true ∧ error.isUnauthenticated = true) → ∀ t, s.env t → t.Sound → Q false t)
    (h : client.authEnabled = true → error.isUnauthenticated = true → ∀ answer t, t.Sound →
      Transition.Reaches step s.manager t.manager → t.history = s.history ++ [.refreshed answer] →
      (answer = .ok () → s.manager.log.length < t.manager.header.attempt) →
      H t.history ∧ Q (decide (answer = .ok ())) t) :
    wp (client.system Req Resp) (fun s => H s.history) Q (client.refreshForReplay error) s := by
  unfold Client.refreshForReplay
  split
  · rename_i herror
    exact wp_ret fun t hst hit => ⟨hst.1 ▸ hH, hno (fun hboth => by simp [hboth.2] at herror) t hst hit⟩
  split
  · rename_i hauth
    exact wp_ret fun t hst hit => ⟨hst.1 ▸ hH, hno (fun hboth => by simp [hboth.1] at hauth) t hst hit⟩
  rename_i herror hauth
  simp only [Bool.not_eq_true', Bool.not_eq_false] at herror hauth
  refine wp_bind hi (wp_refreshNow hi hH ?_)
  intro answer t hit hst hhist hrenewed
  have hpost : ∀ u, t.env u → u.Sound → H u.history ∧ Q (decide (answer = .ok ())) u := fun u htu hiu =>
    h hauth herror answer u hiu (hst.trans htu.2) (htu.1.trans hhist) fun hok =>
      Nat.lt_of_lt_of_le (hrenewed hok) (header_le hit htu.2)
  refine ⟨(hpost t ⟨rfl, .refl⟩ hit).1, ?_⟩
  cases answer with
  | error e => exact wp_ret hpost
  | ok u => exact wp_ret hpost

end ReplayRun

end RociaSdk
