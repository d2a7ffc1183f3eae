import RociaSdk.Upload

/-!
# Verified downloads

`VerifiedDownload` counts and hashes the chunks of a download as they arrive (`file.rs`), and `downloadVerifiedInto` drives it
over the download stream into a writer. The hasher of `sha2` and the caller's `AsyncWrite` are given by what they document:
`Sha256` by its agreement with the digest of the whole input, and a writer by what it accepts before it refuses.
-/

namespace RociaSdk

/-! ## The hasher -/

/-- The incremental hasher of `sha2`: hashing a message in pieces gives the digest of the whole message. -/
structure Sha256 where
  State : Type
  new : State
  update : State → List UInt8 → State
  finalize : State → Digest
  digest : List UInt8 → Digest
  finalize_updates : ∀ chunks : List (List UInt8), finalize (chunks.foldl update new) = digest chunks.flatten

/-! ## The caller's writer -/

/-- How a poll of a writer that takes nothing more answers: with an error, or by accepting zero bytes. -/
inductive WriteRefusal where
  | error (e : IoError)
  | zero
deriving DecidableEq, Repr

/-- What a writer does: the `n`-th poll takes at most `takes n + 1` bytes, or all it is given; after `limit` bytes the writer
refuses; and `flush` is what flushing it answers. -/
structure WriterBehaviour where
  takes : Nat → Option Nat
  limit : Option (Nat × WriteRefusal)
  flush : Except IoError Unit

/-- A writer at work: the polls it has answered and the bytes it has accepted. -/
structure Writer where
  behaviour : WriterBehaviour
  polls : Nat
  held : List UInt8

/-- A writer that has accepted nothing yet. -/
def WriterBehaviour.writer (b : WriterBehaviour) : Writer := { behaviour := b, polls := 0, held := [] }

/-- A `Vec<u8>` as a writer: it accepts every buffer whole. -/
def WriterBehaviour.vec : WriterBehaviour := { takes := fun _ => none, limit := none, flush := .ok () }

/-- What `write_all` reports when the writer accepts zero bytes (`ErrorKind::WriteZero`). -/
def writeZero : IoError := ⟨"write zero"⟩

/-- The most a poll takes of a buffer. -/
def Writer.most (w : Writer) (buf : List UInt8) : Nat :=
  match w.behaviour.takes w.polls with
  | none => buf.length
  | some n => min (n + 1) buf.length

/-- Accept the first `n` bytes of a buffer. -/
def Writer.accept (w : Writer) (buf : List UInt8) (n : Nat) : Except IoError Nat × Writer :=
  (.ok n, { w with polls := w.polls + 1, held := w.held ++ buf.take n })

/-- `poll_write`: accept a first part of a buffer that is not empty, or refuse. -/
def Writer.pollWrite (w : Writer) (buf : List UInt8) : Except IoError Nat × Writer :=
  match w.behaviour.limit with
  | none => w.accept buf (w.most buf)
  | some (limit, refusal) =>
    if w.held.length < limit then w.accept buf (min (w.most buf) (limit - w.held.length))
    else
      match refusal with
      | .error e => (.error e, { w with polls := w.polls + 1 })
      | .zero => w.accept buf 0

/-- `AsyncWriteExt::write_all`: poll until the whole buffer is accepted. -/
def Writer.writeAll (w : Writer) : List UInt8 → Except IoError Unit × Writer
  | [] => (.ok (), w)
  | b :: bs =>
    match w.pollWrite (b :: bs) with
    | (.error e, w') => (.error e, w')
    | (.ok 0, w') => (.error writeZero, w')
    | (.ok (n + 1), w') => w'.writeAll (bs.drop n)
termination_by buf => buf.length
decreasing_by
  rw [List.length_drop, List.length_cons]
  omega

/-! ## The running state of a verified download -/

/-- `u64::saturating_add`. -/
def saturatingAdd (a b : UInt64) : UInt64 :=
  if a.toNat + b.toNat < 2 ^ 64 then a + b else UInt64.ofNat (2 ^ 64 - 1)

/-- `download_write_error`. -/
def downloadWriteError (source : IoError) : RociaDbError := .io "writing the downloaded file" source

/-- `VerifiedDownload`. -/
structure VerifiedDownload (sha : Sha256) where
  expectedSize : UInt64
  hasher : sha.State
  written : UInt64

namespace VerifiedDownload

variable {sha : Sha256}

/-- `VerifiedDownload::new`. -/
def new (sha : Sha256) (expectedSize : UInt64) : VerifiedDownload sha :=
  { expectedSize := expectedSize, hasher := sha.new, written := 0 }

/-- `record`: hash and count a chunk, and fail the moment the running total overshoots. -/
def record (v : VerifiedDownload sha) (chunk : List UInt8) : Result Unit × VerifiedDownload sha :=
  let v' := { v with
    hasher := sha.update v.hasher chunk
    written := saturatingAdd v.written (UInt64.ofNat chunk.length) }
  if v'.written > v'.expectedSize then (.error (.sizeMismatch v'.expectedSize v'.written), v') else (.ok (), v')

/-- `absorb`: record a chunk, then write it. -/
def absorb (v : VerifiedDownload sha) (w : Writer) (chunk : List UInt8) :
    Result Unit × VerifiedDownload sha × Writer :=
  match v.record chunk with
  | (.error e, v') => (.error e, v', w)
  | (.ok (), v') =>
    match w.writeAll chunk with
    | (.error e, w') => (.error (downloadWriteError e), v', w')
    | (.ok (), w') => (.ok (), v', w')

/-- `finish`: the size is checked before the digest, and the digest against the raw bytes of the expected checksum. -/
def finish (v : VerifiedDownload sha) (expectedChecksum : List UInt8) : Result UInt64 :=
  if v.written ≠ v.expectedSize then .error (.sizeMismatch v.expectedSize v.written)
  else
    let digest := sha.finalize v.hasher
    if digest.toList ≠ expectedChecksum then .error (.checksumMismatch expectedChecksum digest.toList)
    else .ok v.written

end VerifiedDownload

/-! ## The downloads -/

/-- The two fields of `FileMetadata` a verified download reads. -/
structure FileMetadata where
  sizeBytes : UInt64
  checksum : List UInt8

/-- An open download stream: the chunks of the messages not read yet, and how the stream ends after them. -/
structure DownloadStream where
  messages : List (List UInt8)
  ending : Except Status Unit

/-- The `while let` loop of `download_verified_into`: what it makes of the stream, with the writer and the messages left. -/
def absorbStream {sha : Sha256} (v : VerifiedDownload sha) (w : Writer) (ending : Except Status Unit) :
    List (List UInt8) → Result (VerifiedDownload sha) × Writer × List (List UInt8)
  | [] => ((statusContext "file download stream failed" ending).map fun _ => v, w, [])
  | chunk :: rest =>
    match v.absorb w chunk with
    | (.error e, _, w') => (.error e, w', rest)
    | (.ok (), v', w') => absorbStream v' w' ending rest

/-- `download_verified_into`, with what it leaves: the writer, and the messages of the stream it never read. -/
def downloadVerifiedInto (sha : Sha256) (metadata : FileMetadata) (opened : Result DownloadStream) (w : Writer) :
    Result UInt64 × Writer × List (List UInt8) :=
  match opened with
  | .error e => (.error e, w, [])
  | .ok stream =>
    match absorbStream (VerifiedDownload.new sha metadata.sizeBytes) w stream.ending stream.messages with
    | (.error e, w', rest) => (.error e, w', rest)
    | (.ok v, w', rest) =>
      match v.finish metadata.checksum with
      | .error e => (.error e, w', rest)
      | .ok written =>
        match w'.behaviour.flush with
        | .error e => (.error (downloadWriteError e), w', rest)
        | .ok () => (.ok written, w', rest)

/-- `download_file_verified_to`: the metadata of `stat_file`, then the verified download into the caller's writer. -/
def downloadFileVerifiedTo (sha : Sha256) (stat : Result FileMetadata) (opened : Result DownloadStream) (w : Writer) :
    Result UInt64 × Writer :=
  match stat with
  | .error e => (.error e, w)
  | .ok metadata => ((downloadVerifiedInto sha metadata opened w).1, (downloadVerifiedInto sha metadata opened w).2.1)

/-- `download_file_verified`: the verified download into a buffer. -/
def downloadFileVerified (sha : Sha256) (stat : Result FileMetadata) (opened : Result DownloadStream) :
    Result (List UInt8) :=
  match downloadFileVerifiedTo sha stat opened WriterBehaviour.vec.writer with
  | (.error e, _) => .error e
  | (.ok _, w) => .ok w.held

end RociaSdk
