import RociaSdk.Timestamp
import RociaSdk.Upload

/-!
# The rechunking loop, with what can panic

The operations of `RechunkState` and the loop over them once more, with each subtraction of lengths and each slice written as
one that panics out of range. The `u64` additions of the loop are those of `rechunkIteration`, as a release build makes them: they wrap.
-/

namespace RociaSdk

namespace RechunkState

/-- `ingest`. -/
def ingestChecked (s : RechunkState) (piece : List UInt8) : Checked Empty RechunkState := do
  let spaceLeft ← Checked.subUsize defaultChunkSize s.buffer.length
  if piece.length ≤ spaceLeft then
    return { s with buffer := s.buffer ++ piece }
  else
    return { s with
      buffer := s.buffer ++ (← Checked.slice piece 0 spaceLeft)
      pending := piece
      pendingOffset := spaceLeft }

/-- `drain_pending`. -/
def drainPendingChecked (s : RechunkState) : Checked Empty RechunkState :=
  if !s.hasPending then .ok s
  else do
    let spaceLeft ← Checked.subUsize defaultChunkSize s.buffer.length
    let available ← Checked.subUsize s.pending.length s.pendingOffset
    let stop := s.pendingOffset + min spaceLeft available
    let moved ← Checked.slice s.pending s.pendingOffset stop
    let drained := { s with buffer := s.buffer ++ moved, pendingOffset := stop }
    return if !drained.hasPending then { drained with pending := [], pendingOffset := 0 } else drained

/-- The `match state.source.next().await` of the loop. -/
def pollSourceChecked (s : RechunkState) : Checked Empty Flow :=
  let polled := { s with polled := s.polled + 1 }
  match s.source s.polled with
  | some (.ok piece) => do return .continue (← polled.ingestChecked piece.data)
  | _ => .ok s.pollSource

end RechunkState

/-- One iteration of the loop of `rechunk_upload_requests`, in a release build. In a debug build the additions to the byte count panic where
they wrap here, `total_written + DEFAULT_CHUNK_SIZE` among them, for which 1 MiB below `2 ^ 64` is enough. -/
def rechunkIterationChecked (s : RechunkState) : Checked Empty Flow :=
  if s.totalWritten + s.unsentLen > s.sizeBytes then .ok (.finish (s.recordSizeError (overshootMessage s.sizeBytes)))
  else if defaultChunkSize ≤ s.buffer.length ∧ (s.completesTheFile = false ∨ s.sourceExhausted = true) then do
    return s.emit (← Checked.slice s.buffer 0 defaultChunkSize) (s.buffer.drop defaultChunkSize)
  else if s.hasPending then do return .continue (← s.drainPendingChecked)
  else if !s.sourceExhausted then s.pollSourceChecked
  else if s.buffer ≠ [] ∨ s.wroteAny = false then .ok (s.emit s.buffer [])
  else if s.totalWritten ≠ s.sizeBytes then
    .ok (.finish (s.recordSizeError (shortfallMessage s.totalWritten s.sizeBytes)))
  else .ok (.finish s)

end RociaSdk
