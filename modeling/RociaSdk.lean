import RociaSdk.Error
import RociaSdk.Lib.Chunks
import RociaSdk.Lib.Transition
import RociaSdk.Upload
import RociaSdk.Download
import RociaSdk.Auth
import RociaSdk.Retry
import RociaSdk.Background
import RociaSdk.Lib.Program
import RociaSdk.Lib.Dispatch
import RociaSdk.Lib.Exchange
import RociaSdk.Lib.Faultless
import RociaSdk.Lib.Viewed
import RociaSdk.Lib.Buffered
import RociaSdk.Lib.Decimals
import RociaSdk.Lib.Calendar
import RociaSdk.Lib.CivilDates
import RociaSdk.Lib.Progress
import RociaSdk.Lib.Scaling
import RociaSdk.Lib.UriText
import RociaSdk.Lib.Grouping
import RociaSdk.Lib.Sorting
import RociaSdk.Lib.Table
import RociaSdk.Lib.Absorbing
import RociaSdk.Lib.Paging
import RociaSdk.Lib.Resumption
import RociaSdk.Client
import RociaSdk.Graph
import RociaSdk.Neighbors
import RociaSdk.Listings
import RociaSdk.Document
import RociaSdk.Json
import RociaSdk.Server
import RociaSdk.Services
import RociaSdk.ServerRun
import RociaSdk.Reads
import RociaSdk.Hosted
import RociaSdk.Queries
import RociaSdk.HostedBatch
import RociaSdk.Writes
import RociaSdk.HostedCalls
import RociaSdk.Host
import RociaSdk.Rfc3339
import RociaSdk.Timestamp
import RociaSdk.UploadPanics
import RociaSdk.Lemmas.RechunkAux
import RociaSdk.Lemmas.RechunkLoop
import RociaSdk.Lemmas.ChunkAux
import RociaSdk.Lemmas.RechunkRun
import RociaSdk.Lemmas.SourceAux
import RociaSdk.Lemmas.RechunkWrap
import RociaSdk.Lemmas.WriterAux
import RociaSdk.Lemmas.AuthAux
import RociaSdk.Lemmas.AuthAnswers
import RociaSdk.Lemmas.CellsAux
import RociaSdk.Lemmas.AttemptAux
import RociaSdk.Lemmas.TaskAux
import RociaSdk.Lemmas.TickAux
import RociaSdk.Lemmas.ReplayAux
import RociaSdk.Lemmas.ReplayRun
import RociaSdk.Lemmas.BatchAux
import RociaSdk.Lemmas.ResumeAux
import RociaSdk.Lemmas.EdgeAux
import RociaSdk.Lemmas.DocumentAux
import RociaSdk.Lemmas.ServedAux
import RociaSdk.Lemmas.PageAux
import RociaSdk.Lemmas.PaginateAux
import RociaSdk.Lemmas.ListingAux
import RociaSdk.Lemmas.JsonAux
import RociaSdk.Lemmas.TimestampAux
import RociaSdk.Lemmas.InstantAux
import RociaSdk.Lemmas.StoreAux
import RociaSdk.Lemmas.SoundAux
import RociaSdk.Lemmas.HostedAux
import RociaSdk.Lemmas.CatalogAux
import RociaSdk.Lemmas.NeighborAux
import RociaSdk.Lemmas.FileAux
import RociaSdk.Lemmas.QueryAux
import RociaSdk.Lemmas.ClockAux
import RociaSdk.Lemmas.HostedBatchAux
import RociaSdk.Lemmas.HostedCallsAux
import RociaSdk.Lemmas.HostedEdgesAux
import RociaSdk.Theorems.Host
import RociaSdk.Theorems.Upload
import RociaSdk.Theorems.ChunkRequests
import RociaSdk.Theorems.UploadErrors
import RociaSdk.Theorems.RechunkLoop
import RociaSdk.Theorems.Download
import RociaSdk.Theorems.Coalescing
import RociaSdk.Theorems.TokenCells
import RociaSdk.Theorems.RefreshAttempt
import RociaSdk.Theorems.BackgroundTick
import RociaSdk.Theorems.DelayCeiling
import RociaSdk.Theorems.Jitter
import RociaSdk.Theorems.Retry
import RociaSdk.Theorems.Requests
import RociaSdk.Theorems.Schedule
import RociaSdk.Theorems.Rfc3339
import RociaSdk.Theorems.SystemTime
import RociaSdk.Theorems.Civil
import RociaSdk.Theorems.Replay
import RociaSdk.Theorems.Batches
import RociaSdk.Theorems.Groups
import RociaSdk.Theorems.EdgeBatch
import RociaSdk.Theorems.Resume
import RociaSdk.Theorems.Pages
import RociaSdk.Theorems.NeighborNodes
import RociaSdk.Theorems.Document
import RociaSdk.Theorems.Store
import RociaSdk.Theorems.Listings
import RociaSdk.Theorems.Traversal
import RociaSdk.Theorems.Queries
import RociaSdk.Theorems.Reads
import RociaSdk.Theorems.Files
import RociaSdk.Theorems.Clock
import RociaSdk.Theorems.HostedBatch
import RociaSdk.Theorems.HostedCalls
import RociaSdk.Theorems.HostedEdges
