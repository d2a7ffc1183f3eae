import RociaSdk.Lemmas.ReplayRun

/-!
# One replay at most

A unary call, the opening call of a download and an upload of a file in memory send their message once, and once more exactly
when the first attempt was unauthenticated and a refresh of the token has succeeded since. `Story` is the record such a call can
leave, piece by piece; each of the two drivers keeps to it, and all that is said of a call is read off it.
-/

namespace RociaSdk

open Interleave TokenManager

variable {Req Resp : Type}

/-! ## What the record says -/

namespace Entry

/-- The request an entry records as sent, with its stamp. -/
def attempt? : Entry Req Resp → Option (Request Req × Option Token)
  | sent request stamp => some (request, stamp)
  | _ => none

/-- The answer an entry records, with the number of refresh attempts completed by then. -/
def answer? : Entry Req Resp → Option (Option (Except Status Resp) × Nat)
  | answered answer completed => some (answer, completed)
  | _ => none

/-- The outcome of a `refresh_now` an entry records. -/
def refresh? : Entry Req Resp → Option (Except AuthError Unit)
  | refreshed answer => some answer
  | _ => none

section

variable (request : Request Req) (stamp : Option Token) (answer : Option (Except Status Resp)) (n : Nat)
  (refresh : Except AuthError Unit)

@[simp] theorem attempt?_sent : (sent request stamp : Entry Req Resp).attempt? = some (request, stamp) := rfl
@[simp] theorem attempt?_answered : (answered answer n : Entry Req Resp).attempt? = none := rfl
@[simp] theorem attempt?_refreshed : (refreshed refresh : Entry Req Resp).attempt? = none := rfl
@[simp] theorem answer?_sent : (sent request stamp : Entry Req Resp).answer? = none := rfl
@[simp] theorem answer?_answered : (answered answer n : Entry Req Resp).answer? = some (answer, n) := rfl
@[simp] theorem answer?_refreshed : (refreshed refresh : Entry Req Resp).answer? = none := rfl
@[simp] theorem refresh?_answered : (answered answer n : Entry Req Resp).refresh? = none := rfl
@[simp] theorem refresh?_refreshed : (refreshed refresh : Entry Req Resp).refresh? = some refresh := rfl

end

end Entry

namespace Shared

/-- The attempts a call has made. -/
def attempts (s : Shared Req Resp) : List (Request Req × Option Token) := s.history.filterMap Entry.attempt?

/-- How they were answered. -/
def answers (s : Shared Req Resp) : List (Option (Except Status Resp) × Nat) := s.history.filterMap Entry.answer?

/-- What the first `refresh_now` after the first answer came to. -/
def replayRefresh (s : Shared Req Resp) : Option (Except AuthError Unit) :=
  (s.history.dropWhile fun entry => entry.answer?.isNone).findSome? Entry.refresh?

end Shared

/-- Whether an answer makes an attempt fail as unauthenticated. -/
def Unauthenticated (operation : String) (timeout : Option Nat) (answer : Option (Except Status Resp)) : Prop :=
  ∃ error, attemptOutcome operation timeout answer = .error error ∧ error.isUnauthenticated = true

/-- Whether a call has what a replay takes: a token manager, a first attempt that was unauthenticated, and a refresh since
that has succeeded. -/
def Shared.Replayable (client : Client) (operation : String) (timeout : Option Nat) (s : Shared Req Resp) : Prop :=
  client.authEnabled = true ∧ (∃ first, s.answers.head? = some first ∧ Unauthenticated operation timeout first.1) ∧
    s.replayRefresh = some (.ok ())

/-- What a call with a replay keeps to, wherever it has come to: `p` is what is left of it, `request` whether a request is one
it may send. -/
structure ReplaysOnce (client : Client) (operation : String) (timeout : Option Nat) (IsRequest : Request Req → Prop)
    (p : Call Req Resp (Result Resp)) (s : Shared Req Resp) : Prop where
  attempts_le : s.attempts.length ≤ 2
  /-- All attempts carry one request. -/
  request : ∃ request, IsRequest request ∧ ∀ attempt ∈ s.attempts, attempt.1 = request
  /-- A second attempt is made only when a replay has what it takes. -/
  second_only : s.attempts.length = 2 → s.Replayable client operation timeout
  /-- A call that has returned has made it in that case. -/
  second_made : ∀ result, p = pure result → s.Replayable client operation timeout → s.attempts.length = 2
  /-- It has returned the outcome of its last attempt. -/
  result : ∀ result, p = pure result → s.attempts.length = s.answers.length ∧
    ∃ last, s.answers.getLast? = some last ∧ result = attemptOutcome operation timeout last.1
  /-- An attempt that ran into a deadline is not replayed. -/
  deadline : ∀ first d, s.answers.head? = some first →
    attemptOutcome operation timeout first.1 = .error (Client.deadlineExceeded operation d) → s.attempts.length = 1
  /-- The header of the second attempt is that of a refresh attempt that had not completed when the first was answered, and has
  by now, or is about to. -/
  stamp : ∀ second, s.attempts[1]? = some second → ∃ token rejected, second.2 = some token ∧
    s.answers.head? = some rejected ∧ rejected.2 < token.attempt ∧
    (s.manager.log[token.attempt - 1]? = some (.ok token) ∨
      ∃ c, s.manager.phase c = .recording (.ok token) ∨ s.manager.phase c = .bumping (.ok token))

namespace ReplayStory

/-- The record up to the answer of the first attempt. -/
def opened (pre : Option (Except AuthError Unit)) (request : Request Req) (stamp : Option Token)
    (answer : Option (Except Status Resp)) (completed : Nat) : List (Entry Req Resp) :=
  refreshes pre ++ [.sent request stamp, .answered answer completed]

/-- The records of a call that has not returned. -/
inductive Story (client : Client) (operation : String) (timeout : Option Nat) (request : Request Req) :
    List (Entry Req Resp) → Prop where
  | opening (pre) : Story client operation timeout request (refreshes pre)
  | sent (pre stamp) : Story client operation timeout request (refreshes pre ++ [.sent request stamp])
  | answered (pre stamp answer n) : Story client operation timeout request (opened pre request stamp answer n)
  | refreshed (pre stamp answer n refresh) (hauth : client.authEnabled = true)
      (hun : Unauthenticated operation timeout answer) :
      Story client operation timeout request (opened pre request stamp answer n ++ [.refreshed refresh])
  | renewed (pre stamp answer n pre') (hauth : client.authEnabled = true) (hun : Unauthenticated operation timeout answer) :
      Story client operation timeout request
        (opened pre request stamp answer n ++ [.refreshed (.ok ())] ++ refreshes pre')
  | resent (pre stamp answer n pre' token) (hauth : client.authEnabled = true)
      (hun : Unauthenticated operation timeout answer) (hnew : n < Token.attempt token) :
      Story client operation timeout request
        (opened pre request stamp answer n ++ [.refreshed (.ok ())] ++ refreshes pre' ++ [.sent request (some token)])
  | settled (pre stamp answer n pre' token answer' n') (hauth : client.authEnabled = true)
      (hun : Unauthenticated operation timeout answer) (hnew : n < Token.attempt token) :
      Story client operation timeout request
        (opened pre request stamp answer n ++ [.refreshed (.ok ())] ++ refreshes pre' ++
          [.sent request (some token), .answered answer' n'])

/-- What a call returns, with its record. -/
inductive Finished (client : Client) (operation : String) (timeout : Option Nat) (request : Request Req) :
    Result Resp → List (Entry Req Resp) → Prop where
  | once (pre stamp answer n) (hno : ¬(client.authEnabled = true ∧ Unauthenticated operation timeout answer)) :
      Finished client operation timeout request (attemptOutcome operation timeout answer) (opened pre request stamp answer n)
  | refused (pre stamp answer n e) (hauth : client.authEnabled = true) (hun : Unauthenticated operation timeout answer) :
      Finished client operation timeout request (attemptOutcome operation timeout answer)
        (opened pre request stamp answer n ++ [.refreshed (.error e)])
  | replayed (pre stamp answer n pre' token answer' n') (hauth : client.authEnabled = true)
      (hun : Unauthenticated operation timeout answer) (hnew : n < Token.attempt token) :
      Finished client operation timeout request (attemptOutcome operation timeout answer')
        (opened pre request stamp answer n ++ [.refreshed (.ok ())] ++ refreshes pre' ++
          [.sent request (some token), .answered answer' n'])

variable {client : Client} {operation : String} {timeout : Option Nat} {request : Request Req} {s : Shared Req Resp}
  {result : Result Resp}

/-! ## Reading a record -/

@[simp] theorem attempts_refreshes (pre : Option (Except AuthError Unit)) :
    (refreshes pre : List (Entry Req Resp)).filterMap Entry.attempt? = [] := by
  cases pre <;> rfl

@[simp] theorem answers_refreshes (pre : Option (Except AuthError Unit)) :
    (refreshes pre : List (Entry Req Resp)).filterMap Entry.answer? = [] := by
  cases pre <;> rfl

/-- The first refresh after the first answer. -/
theorem replayRefresh_opened (pre : Option (Except AuthError Unit)) (stamp : Option Token)
    (answer : Option (Except Status Resp)) (n : Nat) (rest : List (Entry Req Resp)) :
    ((opened pre request stamp answer n ++ rest).dropWhile fun entry => entry.answer?.isNone).findSome? Entry.refresh? =
      rest.findSome? Entry.refresh? := by
  cases pre <;> simp [opened, refreshes, List.dropWhile_cons, List.findSome?_cons]

/-- An attempt that ran into a deadline is not unauthenticated. -/
theorem not_unauthenticated_of_deadline {answer : Option (Except Status Resp)} {d : Nat}
    (h : attemptOutcome operation timeout answer = .error (Client.deadlineExceeded operation d)) :
    ¬Unauthenticated operation timeout answer := by
  rintro ⟨error, herror, hun⟩
  rw [h, Except.error.injEq] at herror
  rw [← herror] at hun
  simp [Client.deadlineExceeded, RociaDbError.isUnauthenticated, RociaDbError.code] at hun

/-- The attempts, the answers and the refresh of a record with a first answer. -/
theorem opened_facts {pre : Option (Except AuthError Unit)} {stamp : Option Token} {answer : Option (Except Status Resp)}
    {n : Nat} {rest : List (Entry Req Resp)} (h : s.history = opened pre request stamp answer n ++ rest) :
    s.attempts = (request, stamp) :: rest.filterMap Entry.attempt? ∧
      s.answers = (answer, n) :: rest.filterMap Entry.answer? ∧ s.replayRefresh = rest.findSome? Entry.refresh? := by
  refine ⟨?_, ?_, ?_⟩
  · simp [Shared.attempts, h, opened, List.filterMap_cons]
  · simp [Shared.answers, h, opened, List.filterMap_cons]
  · unfold Shared.replayRefresh
    rw [h, replayRefresh_opened]

/-- What a call with no answer yet keeps to. -/
theorem replaysOnce_unanswered {IsRequest : Request Req → Prop} {p : Call Req Resp (Result Resp)} (hreq : IsRequest request)
    (hp : ∀ result, p ≠ pure result) (hanswers : s.answers = [])
    (hattempts : s.attempts = [] ∨ ∃ stamp, s.attempts = [(request, stamp)]) :
    ReplaysOnce client operation timeout IsRequest p s := by
  have hlen : s.attempts.length ≤ 1 := by rcases hattempts with h | ⟨stamp, h⟩ <;> simp [h]
  refine ⟨by omega, ⟨request, hreq, ?_⟩, fun h => by omega, fun result h => absurd h (hp result),
    fun result h => absurd h (hp result), ?_, ?_⟩
  · intro attempt ha
    rcases hattempts with h | ⟨stamp, h⟩ <;> simp [h] at ha
    rw [ha]
  · intro first d h
    simp [hanswers] at h
  · intro second h
    rw [List.getElem?_eq_none hlen] at h
    cases h

/-- What a call keeps to that has made one attempt and had it answered. -/
theorem replaysOnce_answered {IsRequest : Request Req → Prop} {p : Call Req Resp (Result Resp)} (hreq : IsRequest request)
    {stamp : Option Token} {answer : Option (Except Status Resp)} {n : Nat} (hattempts : s.attempts = [(request, stamp)])
    (hanswers : s.answers = [(answer, n)])
    (hp : ∀ result, p = pure result → result = attemptOutcome operation timeout answer ∧
      ¬s.Replayable client operation timeout) :
    ReplaysOnce client operation timeout IsRequest p s := by
  have hlen : s.attempts.length = 1 := by rw [hattempts]; rfl
  refine ⟨by omega, ⟨request, hreq, ?_⟩, fun h => by omega, fun result h hr => absurd hr (hp result h).2,
    fun result h => ⟨by rw [hlen, hanswers]; rfl, (answer, n), by rw [hanswers]; rfl, (hp result h).1⟩, fun _ _ _ _ => hlen,
    ?_⟩
  · intro attempt ha
    rw [hattempts, List.mem_singleton] at ha
    rw [ha]
  · intro second h
    rw [List.getElem?_eq_none (by omega)] at h
    cases h

/-- What a call keeps to that has made its second attempt. -/
theorem replaysOnce_resent {IsRequest : Request Req → Prop} {p : Call Req Resp (Result Resp)} (hreq : IsRequest request)
    (hs : s.Sound) {pre pre' : Option (Except AuthError Unit)} {stamp : Option Token} {answer : Option (Except Status Resp)}
    {n : Nat} {token : Token} {rest : List (Entry Req Resp)}
    (h : s.history = opened pre request stamp answer n ++ [.refreshed (.ok ())] ++ refreshes pre' ++
      .sent request (some token) :: rest)
    (hrest : rest.filterMap Entry.attempt? = []) (hauth : client.authEnabled = true)
    (hun : Unauthenticated operation timeout answer) (hnew : n < token.attempt)
    (hp : ∀ result, p = pure result → ∃ last, rest.filterMap Entry.answer? = [last] ∧
      result = attemptOutcome operation timeout last.1) :
    ReplaysOnce client operation timeout IsRequest p s := by
  rw [List.append_assoc, List.append_assoc] at h
  obtain ⟨hattempts, hanswers, hrefresh⟩ := opened_facts h
  have hattempts : s.attempts = [(request, stamp), (request, some token)] := by
    rw [hattempts]
    simp [List.filterMap_cons, hrest]
  have hanswers : s.answers = (answer, n) :: rest.filterMap Entry.answer? := by
    rw [hanswers]
    simp [List.filterMap_cons]
  have hlen : s.attempts.length = 2 := by rw [hattempts]; rfl
  have hreplayable : s.Replayable client operation timeout :=
    ⟨hauth, ⟨(answer, n), by rw [hanswers]; rfl, hun⟩, by rw [hrefresh]; rfl⟩
  refine ⟨by omega, ⟨request, hreq, ?_⟩, fun _ => hreplayable, fun _ _ _ => hlen, ?_, ?_, ?_⟩
  · intro attempt ha
    simp only [hattempts, List.mem_cons, List.not_mem_nil, or_false] at ha
    rcases ha with ha | ha <;> rw [ha]
  · intro result hr
    obtain ⟨last, hlast, heq⟩ := hp result hr
    rw [hlen, hanswers, hlast]
    exact ⟨rfl, last, rfl, heq⟩
  · intro first d hf hd
    rw [hanswers, List.head?_cons, Option.some.injEq] at hf
    rw [← hf] at hd
    exact absurd hun (not_unauthenticated_of_deadline hd)
  · intro second h2
    rw [hattempts] at h2
    obtain rfl : (request, some token) = second := Option.some.inj h2
    refine ⟨token, (answer, n), rfl, by rw [hanswers]; rfl, hnew, ?_⟩
    refine (hs.installed request token (by rw [h]; simp)).resolve_left ?_
    intro hzero
    omega

/-- What a call keeps to before it returns. -/
theorem Story.replaysOnce (h : Story client operation timeout request s.history) (hs : s.Sound)
    {IsRequest : Request Req → Prop} (hreq : IsRequest request) {p : Call Req Resp (Result Resp)}
    (hp : ∀ result, p ≠ pure result) : ReplaysOnce client operation timeout IsRequest p s := by
  generalize hh : s.history = history at h
  cases h with
  | opening pre =>
    exact replaysOnce_unanswered hreq hp (by simp [Shared.answers, hh]) (Or.inl (by simp [Shared.attempts, hh]))
  | sent pre stamp =>
    exact replaysOnce_unanswered hreq hp (by simp [Shared.answers, hh])
      (Or.inr ⟨stamp, by simp [Shared.attempts, hh]⟩)
  | answered pre stamp answer n =>
    obtain ⟨hattempts, hanswers, _⟩ := opened_facts (hh.trans (List.append_nil _).symm)
    exact replaysOnce_answered hreq hattempts hanswers fun result h => absurd h (hp result)
  | refreshed pre stamp answer n refresh hauth hun =>
    obtain ⟨hattempts, hanswers, _⟩ := opened_facts hh
    exact replaysOnce_answered hreq hattempts hanswers fun result h => absurd h (hp result)
  | renewed pre stamp answer n pre' hauth hun =>
    obtain ⟨hattempts, hanswers, _⟩ := opened_facts (hh.trans (List.append_assoc _ _ _))
    have hattempts : s.attempts = [(request, stamp)] := by
      rw [hattempts]
      simp [List.filterMap_cons]
    have hanswers : s.answers = [(answer, n)] := by
      rw [hanswers]
      simp [List.filterMap_cons]
    exact replaysOnce_answered hreq hattempts hanswers fun result h => absurd h (hp result)
  | resent pre stamp answer n pre' token hauth hun hnew =>
    exact replaysOnce_resent hreq hs hh rfl hauth hun hnew fun result h => absurd h (hp result)
  | settled pre stamp answer n pre' token answer' n' hauth hun hnew =>
    exact replaysOnce_resent hreq hs hh rfl hauth hun hnew fun result h => absurd h (hp result)

/-- What a call that has returned has kept to. -/
theorem Finished.replaysOnce (h : Finished client operation timeout request result s.history) (hs : s.Sound)
    {IsRequest : Request Req → Prop} (hreq : IsRequest request) :
    ReplaysOnce client operation timeout IsRequest (pure result) s := by
  have hret : ∀ {r r' : Result Resp}, (pure r : Call Req Resp (Result Resp)) = pure r' → r' = r := by
    intro r r' heq
    cases heq
    rfl
  generalize hh : s.history = history at h
  cases h with
  | once pre stamp answer n hno =>
    obtain ⟨hattempts, hanswers, _⟩ := opened_facts (hh.trans (List.append_nil _).symm)
    refine replaysOnce_answered hreq hattempts hanswers fun result h => ⟨hret h, fun hr => hno ⟨hr.1, ?_⟩⟩
    obtain ⟨first, hfirst, hun⟩ := hr.2.1
    rw [hanswers, List.head?_cons, Option.some.injEq] at hfirst
    rw [← hfirst] at hun
    exact hun
  | refused pre stamp answer n e hauth hun =>
    obtain ⟨hattempts, hanswers, hrefresh⟩ := opened_facts hh
    refine replaysOnce_answered hreq hattempts hanswers fun result h => ⟨hret h, ?_⟩
    intro hr
    exact absurd (hrefresh.symm.trans hr.2.2) (by simp)
  | replayed pre stamp answer n pre' token answer' n' hauth hun hnew =>
    exact replaysOnce_resent hreq hs hh rfl hauth hun hnew fun result h => ⟨(answer', n'), rfl, hret h⟩

/-! ## The two drivers -/

open ReplayRun

/-- The stamp after a refresh that has succeeded: a token newer than `n` attempts. -/
def NewerThan (n : Nat) (stamp : Option Token) : Prop := ∃ token, stamp = some token ∧ n < token.attempt

/-- With a manager whose header is newer, so is the stamp. -/
theorem newerThan_stamp {t : Shared Req Resp} {n : Nat} (hauth : client.authEnabled = true)
    (hn : n < t.manager.header.attempt) : NewerThan n (client.stamp t.manager) :=
  ⟨t.manager.header, by rw [Client.stamp, if_pos hauth], hn⟩

/-- What is left after a first attempt that failed: the refresh, and then the second attempt or the error. -/
theorem wp_replay {error : RociaDbError} {k : Bool → Call Req Resp (Result Resp)} {pre : Option (Except AuthError Unit)}
    {stamp : Option Token} {answer : Option (Except Status Resp)} {n : Nat} (hs : s.Sound)
    (hh : s.history = opened pre request stamp answer n) (hn : n ≤ s.manager.log.length)
    (herror : attemptOutcome operation timeout answer = .error error) (hfirst : k false = pure (.error error))
    (hsecond : ∀ t : Shared Req Resp, t.Sound → client.authEnabled = true → Unauthenticated operation timeout answer →
      t.history = opened pre request stamp answer n ++ [.refreshed (.ok ())] → n < t.manager.header.attempt →
      wp (client.system Req Resp) (fun s => Story client operation timeout request s.history)
        (fun result s => Finished client operation timeout request result s.history) (k true) t) :
    wp (client.system Req Resp) (fun s => Story client operation timeout request s.history)
      (fun result s => Finished client operation timeout request result s.history)
      (client.refreshForReplay error >>= k) s := by
  have hstory : Story client operation timeout request s.history := hh ▸ .answered pre stamp answer n
  refine wp_bind hs (wp_refreshForReplay hs hstory (?_) ?_)
  · intro hno t hst hit
    rw [hfirst]
    refine wp_ret ?_
    intro u htu hiu
    rw [htu.1, hst.1, hh, ← herror]
    refine ⟨.answered pre stamp answer n, .once pre stamp answer n fun hboth => hno ⟨hboth.1, ?_⟩⟩
    obtain ⟨error', herror', hun⟩ := hboth.2
    rw [herror, Except.error.injEq] at herror'
    rw [herror']
    exact hun
  · intro hauth hun refresh t hit hst hhist hnew
    have hunauth : Unauthenticated operation timeout answer := ⟨error, herror, hun⟩
    rw [hh] at hhist
    refine ⟨hhist ▸ .refreshed pre stamp answer n refresh hauth hunauth, ?_⟩
    cases refresh with
    | error e =>
      show wp _ _ _ (k false) t
      rw [hfirst]
      refine wp_ret ?_
      intro u htu hiu
      rw [htu.1, hhist, ← herror]
      exact ⟨.refreshed pre stamp answer n _ hauth hunauth, .refused pre stamp answer n e hauth hunauth⟩
    | ok _ => exact hsecond t hit hauth hunauth hhist (Nat.lt_of_le_of_lt hn (hnew rfl))

/-- `attempt_with_replay` keeps to the story, after the refresh before a stream if there was one. -/
theorem wp_attemptWithReplay {message : Req} {pre : Option (Except AuthError Unit)} (hs : s.Sound)
    (hh : s.history = refreshes pre) :
    wp (client.system Req Resp) (fun s => Story client operation timeout ⟨message, timeout⟩ s.history)
      (fun result s => Finished client operation timeout ⟨message, timeout⟩ result s.history)
      (client.attemptWithReplay operation message timeout) s := by
  have hopening : Story client operation timeout ⟨message, timeout⟩ s.history := hh ▸ .opening pre
  refine wp_bind hs (wp_attempt (R := fun _ => True) hs hopening (fun _ _ _ => trivial)
    (fun stamp _ => by rw [hh]; exact .sent pre stamp) ?_)
  intro stamp answer n t _ hit hst hn hhist
  rw [hh] at hhist
  have hstory : Story client operation timeout ⟨message, timeout⟩ t.history := hhist ▸ .answered pre stamp answer n
  refine ⟨hstory, ?_⟩
  cases houtcome : attemptOutcome operation timeout answer with
  | ok response =>
    refine wp_ret ?_
    intro u htu hiu
    rw [htu.1, hhist, ← houtcome]
    refine ⟨.answered pre stamp answer n, .once pre stamp answer n ?_⟩
    intro hboth
    obtain ⟨error, herror, _⟩ := hboth.2
    exact absurd (houtcome.symm.trans herror) nofun
  | error error =>
    cases hauth : client.authEnabled with
    | false =>
      refine wp_ret ?_
      intro u htu hiu
      rw [htu.1, hhist, ← houtcome]
      exact ⟨.answered pre stamp answer n, .once pre stamp answer n fun hboth => by simp [hauth] at hboth⟩
    | true =>
      refine wp_replay hit hhist hn houtcome rfl ?_
      intro u hiu hauth hun hhist' hnew
      have hrenewed : Story client operation timeout ⟨message, timeout⟩ u.history := by
        rw [hhist']
        simpa [refreshes] using Story.renewed pre stamp answer n none hauth hun
      refine wp_attempt (R := NewerThan n) hiu hrenewed
        (fun v huv hiv => newerThan_stamp hauth (Nat.lt_of_lt_of_le hnew (header_le hiu huv.2))) ?_ ?_
      · rintro _ ⟨token, rfl, hlt⟩
        rw [hhist']
        simpa [refreshes] using Story.resent pre stamp answer n none token hauth hun hlt
      · rintro _ answer' n' v ⟨token, rfl, hlt⟩ hiv huv _ hhist''
        rw [hhist'', hhist']
        exact ⟨by simpa [refreshes] using Story.settled pre stamp answer n none token answer' n' hauth hun hlt,
          by simpa [refreshes] using Finished.replayed pre stamp answer n none token answer' n' hauth hun hlt⟩

/-- `download_file_stream` keeps to the story. -/
theorem wp_downloadFileStream {Stream : Type} {s : Shared DownloadRequest Stream} {tenantId bucket fileId : String}
    (hs : s.Sound) (hh : s.history = []) :
    wp (client.system DownloadRequest Stream)
      (fun s => Story client downloadOperation none ⟨⟨tenantId, bucket, fileId⟩, none⟩ s.history)
      (fun result s => Finished client downloadOperation none ⟨⟨tenantId, bucket, fileId⟩, none⟩ result s.history)
      (client.downloadFileStream tenantId bucket fileId) s := by
  refine wp_bind hs (wp_refreshTokenBeforeStream hs (hh ▸ .opening none) ?_)
  intro pre t hit _ hhist
  rw [hh, List.nil_append] at hhist
  exact ⟨hhist ▸ .opening pre, wp_attemptWithReplay hit hhist⟩

/-- The two attempts of `upload_file` with one list of requests keep to the story. -/
theorem wp_uploads {s : Shared (List UploadRequest) Unit} {requests : List UploadRequest}
    {k : Except Status Unit → Call (List UploadRequest) Unit (Result Unit)} (hs : s.Sound) (hh : s.history = [])
    (hok : k (.ok ()) = pure (.ok ()))
    (herror : ∀ status, k (.error status) = client.refreshForReplay (.status uploadOperation status) >>= fun replay =>
      if !replay then pure (.error (.status uploadOperation status))
      else client.uploadRaw requests >>= fun answer => pure (statusContext uploadOperation answer)) :
    wp (client.system (List UploadRequest) Unit)
      (fun s => Story client uploadOperation none ⟨requests, none⟩ s.history)
      (fun result s => Finished client uploadOperation none ⟨requests, none⟩ result s.history)
      (client.uploadRaw requests >>= k) s := by
  refine wp_bind hs (wp_uploadRaw (R := fun _ => True) hs (fun pre => ?_) (fun _ _ _ => trivial) (fun pre stamp _ => ?_)
    fun pre stamp answer n t _ hit hst hn hhist => ?_)
  · rw [hh]
    exact .opening pre
  · rw [hh]
    exact .sent pre stamp
  rw [hh, List.nil_append] at hhist
  have hstory : Story client uploadOperation none ⟨requests, none⟩ t.history := hhist ▸ .answered pre stamp _ n
  refine ⟨hstory, ?_⟩
  cases answer with
  | ok u =>
    rw [hok]
    refine wp_ret ?_
    intro u htu hiu
    rw [htu.1, hhist]
    refine ⟨.answered pre stamp _ n, .once pre stamp (some (.ok ())) n ?_⟩
    intro hboth
    obtain ⟨error, herror, _⟩ := hboth.2
    cases herror
  | error status =>
    rw [herror]
    refine wp_replay hit hhist hn rfl rfl ?_
    intro u hiu hauth hun hhist' hnew
    refine wp_bind hiu (wp_uploadRaw (R := NewerThan n) hiu (?_)
      (fun v huv hiv => newerThan_stamp hauth (Nat.lt_of_lt_of_le hnew (header_le hiu huv))) ?_ ?_)
    · intro pre'
      rw [hhist']
      exact .renewed pre stamp _ n pre' hauth hun
    · rintro pre' _ ⟨token, rfl, hlt⟩
      rw [hhist']
      exact .resent pre stamp _ n pre' token hauth hun hlt
    · rintro pre' _ answer' n' v ⟨token, rfl, hlt⟩ hiv huv _ hhist''
      rw [hhist'] at hhist''
      refine ⟨hhist'' ▸ .settled pre stamp _ n pre' token _ n' hauth hun hlt, wp_ret ?_⟩
      intro w hvw hiw
      rw [hvw.1, hhist'']
      refine ⟨.settled pre stamp _ n pre' token _ n' hauth hun hlt, ?_⟩
      have houtcome : statusContext uploadOperation answer' = attemptOutcome uploadOperation none (some answer') := by
        cases answer' <;> rfl
      rw [houtcome]
      exact .replayed pre stamp _ n pre' token _ n' hauth hun hlt

/-- A call whose requests are known and that keeps to its story replays once at most. -/
theorem replaysOnce_of_wp {p q : Call Req Resp (Result Resp)} {m : TokenManager} {IsRequest : Request Req → Prop}
    (hm : m.Reachable) (hrun : Runs (client.system Req Resp) p ⟨m, []⟩ q s)
    (hp : ∀ s : Shared Req Resp, s.Sound → s.history = [] →
      wp (client.system Req Resp)
        (fun s => ∃ request, IsRequest request ∧ Story client operation timeout request s.history)
        (fun result s => ∃ request, IsRequest request ∧ Finished client operation timeout request result s.history) p s) :
    ReplaysOnce client operation timeout IsRequest q s := by
  have hsound : Shared.Sound (⟨m, []⟩ : Shared Req Resp) := ReplayAux.sound_of_reachable hm
  have hs : s.Sound := (hrun.sound hsound (hp _ hsound rfl)).1
  by_cases hret : ∃ result, q = pure result
  · obtain ⟨result, rfl⟩ := hret
    obtain ⟨request, hreq, hfinished⟩ := hrun.post hsound (hp _ hsound rfl)
    exact hfinished.replaysOnce hs hreq
  · obtain ⟨request, hreq, hstory⟩ := hrun.guarantee hsound (hp _ hsound rfl)
    exact hstory.replaysOnce hs hreq fun result h => hret ⟨result, h⟩

end ReplayStory

open ReplayStory

/-- The request ids an upload may have: the caller's, or else a default one. -/
def IsUploadId (options : FileUploadOptions) (requestId : String) : Prop :=
  options.requestId = some requestId ∨ options.requestId = none ∧ ∃ uuid, requestId = defaultUploadFileRequestId uuid

/-- The requests `upload_file` may send: the chunks of the file under one request id. -/
def IsUpload (hash : Sha256) (tenantId bucket fileId : String) (bytes : Bytes) (options : FileUploadOptions)
    (request : Request (List UploadRequest)) : Prop :=
  ∃ requestId, IsUploadId options requestId ∧ request =
    ⟨chunkUploadRequests tenantId bucket fileId bytes.data options.contentType
      (resolveChecksum hash options.checksum bytes.data) requestId, none⟩

namespace ReplayStory

/-- The request id is settled before anything is sent. -/
theorem wp_uploadRequestId {client : Client} {s : Shared (List UploadRequest) Unit} {options : FileUploadOptions}
    {H : List (Entry (List UploadRequest) Unit) → Prop} {Q : String → Shared (List UploadRequest) Unit → Prop}
    (hs : s.Sound) (hH : H s.history)
    (h : ∀ requestId t, t.Sound → t.history = s.history → IsUploadId options requestId → Q requestId t) :
    wp (client.system (List UploadRequest) Unit) (fun s => H s.history) Q (Client.uploadRequestId options) s := by
  unfold Client.uploadRequestId
  split
  · rename_i requestId hid
    exact wp_ret fun t hst hit => ⟨hst.1 ▸ hH, h requestId t hit hst.1 (Or.inl hid)⟩
  · rename_i hid
    refine wp_bind hs (wp_perform fun t hst _ => ⟨hst.1 ▸ hH, ?_⟩)
    rintro uuid _ rfl u htu hiu
    have hu : u.history = s.history := htu.1.trans hst.1
    exact ⟨hu ▸ hH, wp_ret fun v huv hiv =>
      ⟨(huv.1.trans hu) ▸ hH, h _ v hiv (huv.1.trans hu) (Or.inr ⟨hid, uuid, rfl⟩)⟩⟩

/-- `upload_file` keeps to the story of one list of requests. -/
theorem wp_uploadFile {client : Client} {s : Shared (List UploadRequest) Unit} {hash : Sha256}
    {tenantId bucket fileId : String} {bytes : Bytes} {options : FileUploadOptions} (hs : s.Sound) (hh : s.history = [])
    (hvalid : validateFileSize (UInt64.ofNat bytes.data.length) client.maxFileBytes = .ok ()) :
    wp (client.system (List UploadRequest) Unit)
      (fun s => ∃ request, IsUpload hash tenantId bucket fileId bytes options request ∧
        Story client uploadOperation none request s.history)
      (fun result s => ∃ request, IsUpload hash tenantId bucket fileId bytes options request ∧
        Finished client uploadOperation none request result s.history)
      (client.uploadFile hash tenantId bucket fileId bytes options) s := by
  unfold Client.uploadFile
  rw [hvalid]
  refine wp_bind hs (wp_uploadRequestId (H := fun history => ∃ request,
    IsUpload hash tenantId bucket fileId bytes options request ∧ Story client uploadOperation none request history)
    hs ?_ ?_)
  · -- Before a request id is drawn, any one it may come to will do.
    obtain ⟨requestId, hid⟩ : ∃ requestId, IsUploadId options requestId := by
      cases hid : options.requestId with
      | some requestId => exact ⟨requestId, Or.inl hid⟩
      | none => exact ⟨_, Or.inr ⟨hid, "", rfl⟩⟩
    rw [hh]
    exact ⟨_, ⟨requestId, hid, rfl⟩, .opening none⟩
  · intro requestId t hit hht hid
    exact (wp_uploads hit (hht.trans hh) rfl fun _ => rfl).mono
      (fun _ _ hstory => ⟨_, ⟨requestId, hid, rfl⟩, hstory⟩)
      (fun _ _ _ hfinished => ⟨_, ⟨requestId, hid, rfl⟩, hfinished⟩)

/-- A file over the limit is refused with nothing sent. -/
theorem wp_uploadFile_refused {client : Client} {s : Shared (List UploadRequest) Unit} (hash : Sha256)
    (tenantId bucket fileId : String) {bytes : Bytes} (options : FileUploadOptions) {error : RociaDbError}
    (hh : s.history = [])
    (hinvalid : validateFileSize (UInt64.ofNat bytes.data.length) client.maxFileBytes = .error error) :
    wp (client.system (List UploadRequest) Unit) (fun s => s.history = []) (fun result _ => result = .error error)
      (client.uploadFile hash tenantId bucket fileId bytes options) s := by
  unfold Client.uploadFile
  rw [hinvalid]
  exact wp_ret fun t hst _ => ⟨hst.1.trans hh, rfl⟩

end ReplayStory

/-- Unary calls, the opening calls of downloads and uploads of files in memory are replayed once at most, exactly when the first
attempt was unauthenticated and a refresh of the token has succeeded since, whatever the server, the IdP and every other user
of the token manager do in between. -/
theorem Client.replays_once (client : Client) :
    (∀ (Req Resp : Type) (operation : String) (message : Req) (m : TokenManager) (p : Call Req Resp (Result Resp))
      (s : Shared Req Resp), m.Reachable →
        Runs (client.system Req Resp) (client.unary operation message) ⟨m, []⟩ p s →
          ReplaysOnce client operation client.requestTimeout (· = ⟨message, client.requestTimeout⟩) p s) ∧
    (∀ (Stream : Type) (tenantId bucket fileId : String) (m : TokenManager)
      (p : Call DownloadRequest Stream (Result Stream)) (s : Shared DownloadRequest Stream), m.Reachable →
        Runs (client.system DownloadRequest Stream) (client.downloadFileStream tenantId bucket fileId) ⟨m, []⟩ p s →
          ReplaysOnce client downloadOperation none (· = ⟨⟨tenantId, bucket, fileId⟩, none⟩) p s) ∧
    (∀ (hash : Sha256) (tenantId bucket fileId : String) (bytes : Bytes) (options : FileUploadOptions) (m : TokenManager)
      (p : Call (List UploadRequest) Unit (Result Unit)) (s : Shared (List UploadRequest) Unit), m.Reachable →
        Runs (client.system (List UploadRequest) Unit) (client.uploadFile hash tenantId bucket fileId bytes options)
          ⟨m, []⟩ p s →
        match validateFileSize (UInt64.ofNat bytes.data.length) client.maxFileBytes with
        | .ok () => ReplaysOnce client uploadOperation none (IsUpload hash tenantId bucket fileId bytes options) p s
        | .error error => s.history = [] ∧ ∀ result, p = pure result → result = .error error) := by
  refine ⟨?_, ?_, ?_⟩
  · intro Req Resp operation message m p s hm hrun
    exact replaysOnce_of_wp hm hrun fun s hs hh => (wp_attemptWithReplay hs (show s.history = refreshes none from hh)).mono
      (fun _ _ hstory => ⟨_, rfl, hstory⟩) (fun _ _ _ hfinished => ⟨_, rfl, hfinished⟩)
  · intro Stream tenantId bucket fileId m p s hm hrun
    exact replaysOnce_of_wp hm hrun fun s hs hh => (wp_downloadFileStream hs hh).mono
      (fun _ _ hstory => ⟨_, rfl, hstory⟩) (fun _ _ _ hfinished => ⟨_, rfl, hfinished⟩)
  · intro hash tenantId bucket fileId bytes options m p s hm hrun
    split
    · rename_i hvalid
      exact replaysOnce_of_wp hm hrun fun s hs hh => wp_uploadFile hs hh hvalid
    · rename_i error hinvalid
      have hsound : Shared.Sound (⟨m, []⟩ : Shared (List UploadRequest) Unit) := ReplayAux.sound_of_reachable hm
      have hwp := wp_uploadFile_refused (s := ⟨m, []⟩) hash tenantId bucket fileId options rfl hinvalid
      exact ⟨hrun.guarantee hsound hwp, fun result hp => (hp ▸ hrun).post hsound hwp⟩

/-- A unary call that is rejected for its token, has it refreshed and succeeds on its second attempt. -/
theorem Client.replays_once_unary :
    let client : Client := ⟨true, none, 0⟩
    let m := TokenManager.new .verbatim 0 ⟨"t", 600, "Bearer"⟩ "Bearer t"
    ∃ s : Shared String String, s.attempts.length = 2 ∧
      Runs (client.system String String) (client.unary "failed to read" "message") ⟨m, []⟩ (pure (.ok "answer")) s ∧
      ReplaysOnce client "failed to read" none (· = ⟨"message", none⟩) (pure (.ok "answer")) s := by
  intro client m
  have hm : m.Reachable := ⟨.verbatim, 0, ⟨"t", 600, "Bearer"⟩, "Bearer t", rfl, .refl⟩
  let rejected : Status := ⟨.unauthenticated, "token expired", false⟩
  let refresh : List TokenManager.Event :=
    [.acquire 0, .fetchEnds 0 (.ok ⟨"u", 600, "Bearer"⟩), .writeLifetime 0, .writeHeader 0, .record 0, .bump 0, .release 0]
  obtain ⟨m', hexec, hp⟩ : ∃ m', Transition.exec step (m.begin 0) refresh = some m' ∧
      m'.phase 0 = .returned true (.ok ()) := ⟨_, rfl, rfl⟩
  let S := client.system String String
  let record : List (Entry String String) :=
    [.sent ⟨"message", none⟩ (some m.header), .answered (some (.error rejected)) 0]
  have hsent : Runs S (client.unary "failed to read" "message") ⟨m, []⟩ _ ⟨m, [.sent ⟨"message", none⟩ (some m.header)]⟩ :=
    Runs.refl.act (show S.act (Op.send ⟨"message", none⟩) _ () _ from rfl)
  have hrejected : Runs S _ _ _ ⟨m, record⟩ := hsent.act (show S.act Op.answer _ (.error rejected) _ from rfl)
  have hbegun : Runs S _ _ _ ⟨m.begin 0, record⟩ := hrejected.act (show S.act Op.begin _ (0 : Nat) _ from ⟨_, rfl, rfl⟩)
  have hrefreshed : Runs S _ _ _ ⟨m', record ++ [.refreshed (.ok ())]⟩ :=
    (hbegun.env (show S.env _ ⟨m', record⟩ from ⟨rfl, Transition.reaches_of_exec hexec⟩)).act
      (show S.act (Op.refreshed 0) _ (.ok ()) _ from ⟨⟨true, hp⟩, rfl⟩)
  have hresent : Runs S _ _ _ ⟨m', record ++ [.refreshed (.ok ())] ++ [.sent ⟨"message", none⟩ (some m'.header)]⟩ :=
    hrefreshed.act (show S.act (Op.send ⟨"message", none⟩) _ () _ from rfl)
  have hrun := hresent.act (show S.act Op.answer _ (.ok "answer") _ from rfl)
  exact ⟨_, rfl, hrun, (replays_once client).1 String String "failed to read" "message" m _ _ hm hrun⟩

end RociaSdk
