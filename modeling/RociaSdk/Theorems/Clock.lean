import RociaSdk.Lemmas.ClockAux
import RociaSdk.Lemmas.FileAux
import RociaSdk.Lemmas.SoundAux

/-!
# The times of files

The server stamps each upload that lands with the next second of its clock. `WriteCall.stamps` is what a call makes of the clock and of
the two stamps of a file, and `file_times` says that the client reads just these from what `stat_file` returns.
-/

namespace RociaSdk

namespace Server

/-- The clock of a server, as the number of uploads it has stamped, and the stamps of a file that is there: when it was created, and
when it was written last. -/
structure Stamps where
  writes : Nat
  file : Option (Nat × Nat)
deriving DecidableEq, Repr

/-- What a call that lands makes of the stamps of a file. -/
def Stamps.after (scope : String × String) (fileId : String) (stamps : Stamps) : WriteCall → Stamps
  | .upload stream =>
    match WriteCall.uploaded stream with
    | some (head, _) => {
        writes := stamps.writes + 1
        file :=
          if (head.tenantId, head.bucket) = scope ∧ head.fileId = fileId then
            some ((stamps.file.map Prod.fst).getD (stamps.writes + 1), stamps.writes + 1)
          else stamps.file }
    | none => stamps
  | .delete r => { stamps with file := if (r.tenantId, r.bucket) = scope ∧ r.fileId = fileId then none else stamps.file }
  | _ => stamps

/-- The stamps of a file are in their order. -/
def Stamps.InOrder (stamps : Stamps) : Prop :=
  ∀ created updated, stamps.file = some (created, updated) → 1 ≤ created ∧ created ≤ updated ∧ updated ≤ stamps.writes

/-- A store whose clock and whose file have these stamps. -/
structure Store.Stamped (store : Store) (scope : String × String) (fileId : String) (nonRfc3339Timestamps : Bool) (stamps : Stamps) :
    Prop where
  format : store.nonRfc3339Timestamps = nonRfc3339Timestamps
  writes : store.writes = stamps.writes
  file : ((store.files.find? scope fileId).map fun file => (file.createdAt, file.updatedAt)) =
    stamps.file.map fun times => (store.stamp times.1, store.stamp times.2)

namespace ClockAux

open StoreAux

variable {scope : String × String} {fileId : String} {flag : Bool} {stamps : Stamps} {store store' : Store}

theorem inOrder_after (h : stamps.InOrder) (call : WriteCall) : (stamps.after scope fileId call).InOrder := by
  unfold Stamps.InOrder at h ⊢
  cases call with
  | upload stream =>
    simp only [Stamps.after]
    cases WriteCall.uploaded stream with
    | none => exact h
    | some drained =>
      intro created updated hfile
      simp only at hfile ⊢
      split at hfile
      · cases hold : stamps.file with
        | none =>
          rw [hold] at hfile
          cases hfile
          exact ⟨Nat.le_add_left .., Nat.le_refl _, Nat.le_refl _⟩
        | some times =>
          rw [hold] at hfile
          cases hfile
          have := h times.1 times.2 hold
          simp only [Option.map_some, Option.getD_some]
          omega
      · have := h created updated hfile
        omega
  | delete r =>
    intro created updated hfile
    simp only [Stamps.after] at hfile ⊢
    split at hfile
    · cases hfile
    · exact h created updated hfile
  | putDoc r => exact h
  | deleteDoc r => exact h
  | putNode r => exact h
  | addEdge r => exact h
  | deleteEdge r => exact h

theorem inOrder_foldl (h : stamps.InOrder) (calls : List WriteCall) : (calls.foldl (Stamps.after scope fileId) stamps).InOrder := by
  induction calls generalizing stamps with
  | nil => exact h
  | cons call calls ih => exact ih (inOrder_after h call)

theorem stamp_eq (h : store'.nonRfc3339Timestamps = store.nonRfc3339Timestamps) (number : Nat) :
    store'.stamp number = store.stamp number := by
  unfold Store.stamp
  rw [h]

/-- An upload stamps its file. -/
theorem stamped_upload (h : store.Stamped scope fileId flag stamps) (head : UploadRequest) (bytes : List UInt8) :
    (store.upload head bytes).Stamped scope fileId flag {
      writes := stamps.writes + 1
      file :=
        if (head.tenantId, head.bucket) = scope ∧ head.fileId = fileId then
          some ((stamps.file.map Prod.fst).getD (stamps.writes + 1), stamps.writes + 1)
        else stamps.file } where
  format := h.format
  writes := congrArg (· + 1) h.writes
  file := by
    have hfile := h.file
    have hstamp : ∀ number, (store.upload head bytes).stamp number = store.stamp number := stamp_eq rfl
    have hnow : store.tick.1 = store.stamp (stamps.writes + 1) := by
      rw [← h.writes]
      rfl
    have hrow : (store.upload head bytes).files.find? scope fileId =
        if (head.tenantId, head.bucket) = scope ∧ head.fileId = fileId then some {
          bytes := bytes, sizeBytes := UInt64.ofNat bytes.length, contentType := head.contentType, checksum := head.checksum
          createdAt := ((store.files.find? scope fileId).map StoredFile.createdAt).getD store.tick.1, updatedAt := store.tick.1 }
        else store.files.find? scope fileId := by
      simp only [Store.upload, Table.find?_put]
      split
      · rename_i hsame
        rw [← hsame.1, ← hsame.2]
        rfl
      · rfl
    simp only [hrow, hstamp]
    split
    · cases hold : stamps.file with
      | none =>
        rw [hold, Option.map_none, Option.map_eq_none_iff] at hfile
        simp [hfile, hnow]
      | some times =>
        rw [hold] at hfile
        obtain ⟨file, hrow, heq⟩ := Option.map_eq_some_iff.1 hfile
        have hcreated : file.createdAt = store.stamp times.1 := congrArg Prod.fst heq
        simp [hrow, hnow, hcreated]
    · exact hfile

/-- What a call makes of the stamps. -/
theorem stamped_apply {call : WriteCall} (h : store.Stamped scope fileId flag stamps) (happly : writes.apply call store = .ok store') :
    store'.Stamped scope fileId flag (stamps.after scope fileId call) := by
  have hregister : (store.register call.tenantId).Stamped scope fileId flag stamps := ⟨h.format, h.writes, h.file⟩
  rw [apply_eq happly]
  cases call with
  | upload stream =>
    simp only [WriteCall.put, Stamps.after]
    cases WriteCall.uploaded stream with
    | none => exact hregister
    | some drained => exact stamped_upload hregister drained.1 drained.2
  | delete r =>
    refine ⟨h.format, h.writes, ?_⟩
    simp only [WriteCall.put, Store.delete, Stamps.after, Table.find?_remove]
    split
    · rfl
    · exact h.file
  | putDoc r => exact ⟨h.format, h.writes, h.file⟩
  | deleteDoc r => exact ⟨h.format, h.writes, h.file⟩
  | putNode r => exact ⟨h.format, h.writes, h.file⟩
  | addEdge r => exact ⟨h.format, h.writes, h.file⟩
  | deleteEdge r => exact ⟨h.format, h.writes, h.file⟩

/-- A run leaves the stamps its calls make. -/
theorem stamped_run (flag : Bool) (events : List Event) (scope : String × String) (fileId : String) :
    ((State.start flag).run events).store.Stamped scope fileId flag
      (((State.start flag).landed events).foldl (Stamps.after scope fileId) { writes := 0, file := none }) := by
  obtain ⟨hserve, hlanded⟩ := run_marked (State.start flag) events
  have hplain := Absorbing.Service.plain_landed writes (State.start flag).marked ((State.start flag).landed events)
  rw [hserve, hlanded] at hplain
  refine Absorbing.Service.plain_follows (fun store => store.Stamped scope fileId flag) _ (fun _ _ _ _ => stamped_apply) ?_ hplain
  exact ⟨rfl, rfl, by simp [State.marked, State.start, State.default, Store.empty]⟩

/-- What the client makes of a stamp: the second it is of, or, of a local time, an error that quotes it. -/
theorem unixNanos_stamp (store : Store) (debug : String → String) (number : Nat) (hend : timestampBaseUnixSeconds + number < formatEnd) :
    if store.nonRfc3339Timestamps then
      ∃ problem, (FileTimestamp.mk (store.stamp number)).unixNanos debug =
        .error (FileTimestamp.decodeError debug ⟨store.stamp number⟩ problem)
    else
      (FileTimestamp.mk (store.stamp number)).unixNanos debug = .ok ((timestampBaseUnixSeconds + number) * 10 ^ 9) := by
  unfold Store.stamp FileTimestamp.unixNanos FileTimestamp.unixInstant
  cases hformat : store.nonRfc3339Timestamps with
  | true =>
    obtain ⟨problem, hparse⟩ := parse_formatLocalDateTime (timestampBaseUnixSeconds + number)
    simp only [if_true, hparse]
    exact ⟨problem, rfl⟩
  | false =>
    have hstart : formatStart ≤ timestampBaseUnixSeconds + number := by
      unfold formatStart timestampBaseUnixSeconds
      omega
    obtain ⟨s, hs, hparse⟩ := parse_formatRfc3339 hstart hend
    simp only [Bool.false_eq_true, if_false, hparse, TimestampAux.ok_bind, hs]
    exact congrArg Checked.ok (Int.add_zero _)

end ClockAux

open ClockAux FileAux HostedAux

/-- In every run of a new server: a `stat_file` that is let in finds a file that an upload has left that landed and no later call has
deleted, and of its stamps the client reads the seconds of the clock at which it was created, since it was last deleted, and last
written, in this order. Of a server that writes local times it reads neither. The clock is before the year 10000, where a stamp would
have five digits of the year. -/
theorem file_times (nonRfc3339Timestamps : Bool) (events : List Event) (client : Client) (header : String)
    (debug : String → String) (tenantId bucket fileId : String) :
    let s := (State.start nonRfc3339Timestamps).run events
    let stamps := ((State.start nonRfc3339Timestamps).landed events).foldl (Stamps.after (tenantId, bucket) fileId)
      { writes := 0, file := none }
    s.LetsIn "Stat" (client.authorization header) → timestampBaseUnixSeconds + stamps.writes < formatEnd →
      match stamps.file with
      | none =>
        (statFile (hosted client State.stat) tenantId bucket fileId (.alone header s)).1 =
          .error (.status "failed to stat file" (notFound ("file " ++ fileId ++ " not found")))
      | some (created, updated) =>
        1 ≤ created ∧ created ≤ updated ∧ updated ≤ stamps.writes ∧
          ∃ stat, (statFile (hosted client State.stat) tenantId bucket fileId (.alone header s)).1 = .ok stat ∧
            if nonRfc3339Timestamps then
              (∃ problem, stat.createdAt.unixNanos debug = .error (stat.createdAt.decodeError debug problem)) ∧
                ∃ problem, stat.updatedAt.unixNanos debug = .error (stat.updatedAt.decodeError debug problem)
            else
              stat.createdAt.unixNanos debug = .ok ((timestampBaseUnixSeconds + created) * 10 ^ 9) ∧
                stat.updatedAt.unixNanos debug = .ok ((timestampBaseUnixSeconds + updated) * 10 ^ 9) := by
  intro s stamps hopen hclock
  have hstamped : s.store.Stamped (tenantId, bucket) fileId nonRfc3339Timestamps stamps := stamped_run _ _ _ _
  have hfile := hstamped.file
  obtain ⟨hadmits, harrived⟩ := alone_let_in hopen
  rw [statFile_let_in tenantId bucket fileId hadmits, harrived]
  have hnew : Stamps.InOrder { writes := 0, file := none } := by simp [Stamps.InOrder]
  have horder : stamps.InOrder := inOrder_foldl hnew _
  cases hstamps : stamps.file with
  | none =>
    rw [hstamps, Option.map_none, Option.map_eq_none_iff] at hfile
    simp only [hfile, Option.map_none, Option.elim_none]
  | some times =>
    obtain ⟨created, updated⟩ := times
    obtain ⟨hpos, hle, hwrites⟩ := horder created updated hstamps
    rw [hstamps] at hfile
    obtain ⟨file, hrow, htimes⟩ := Option.map_eq_some_iff.1 hfile
    obtain ⟨hcreated, hupdated⟩ := Prod.mk.inj htimes
    have hread := unixNanos_stamp s.store debug created (by omega)
    have hread' := unixNanos_stamp s.store debug updated (by omega)
    rw [← hcreated, hstamped.format] at hread
    rw [← hupdated, hstamped.format] at hread'
    refine ⟨hpos, hle, hwrites, FileStat.fromResponse file.stat, by rw [hrow]; rfl, ?_⟩
    cases nonRfc3339Timestamps with
    | true => exact ⟨hread, hread'⟩
    | false => exact ⟨hread, hread'⟩

/-- An upload of no bytes to a file. -/
def uploadNothing (fileId : String) : Event :=
  .call none (.upload { messages := chunkUploadRequests "t" "b" fileId [] "text/plain" (Vector.replicate 32 0) "", ending := .ok () })

/-- A file that is written twice, with another one between, has the first stamp and the third. -/
theorem file_times_twice :
    let client : Client := { authEnabled := false, requestTimeout := none, maxFileBytes := 0 }
    ∃ stat, (statFile (hosted client State.stat) "t" "b" "f"
        (.alone "" ((State.start false).run [uploadNothing "f", uploadNothing "g", uploadNothing "f"]))).1 = .ok stat ∧
      stat.createdAt.unixNanos (fun text => text) = .ok ((timestampBaseUnixSeconds + 1) * 10 ^ 9) ∧
        stat.updatedAt.unixNanos (fun text => text) = .ok ((timestampBaseUnixSeconds + 3) * 10 ^ 9) := by
  intro client
  have hstamps : ((State.start false).landed [uploadNothing "f", uploadNothing "g", uploadNothing "f"]).foldl
      (Stamps.after ("t", "b") "f") { writes := 0, file := none } = { writes := 3, file := some (1, 3) } := rfl
  have htimes := file_times false [uploadNothing "f", uploadNothing "g", uploadNothing "f"] client "" (fun text => text) "t" "b"
    "f" ⟨rfl, rfl⟩ (by rw [hstamps]; decide)
  rw [hstamps] at htimes
  exact htimes.2.2.2

end Server

end RociaSdk
