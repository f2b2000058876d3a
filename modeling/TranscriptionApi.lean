import TranscriptionApi.Lib.Transition
import TranscriptionApi.Lib.Table
import TranscriptionApi.Lib.ReadCommitted
import TranscriptionApi.Lib.AsyncLock
import TranscriptionApi.Lib.Loop
import TranscriptionApi.Lib.Tally
import TranscriptionApi.Lib.Paging
import TranscriptionApi.Lib.Json.Value
import TranscriptionApi.Lib.Json.Dumps
import TranscriptionApi.Lib.Json.Loads
import TranscriptionApi.Lib.Json.Scalars
import TranscriptionApi.Lib.Json.RoundTrip
import TranscriptionApi.Lib.Json.Unchecked
import TranscriptionApi.Lib.FileTree
import TranscriptionApi.Lib.Prune
import TranscriptionApi.Lib.ByteFile
import TranscriptionApi.Python
import TranscriptionApi.Config
import TranscriptionApi.Db.Models
import TranscriptionApi.Db.Scoping
import TranscriptionApi.Auth.Bearer
import TranscriptionApi.Auth.Gates
import TranscriptionApi.Auth.Accounts
import TranscriptionApi.Auth.Concurrent
import TranscriptionApi.Auth.Pending
import TranscriptionApi.Auth.OneActive
import TranscriptionApi.Auth.Browser
import TranscriptionApi.Auth.Flash
import TranscriptionApi.Auth.Callback
import TranscriptionApi.Auth.CallbackSteps
import TranscriptionApi.Auth.CallbackAnswers
import TranscriptionApi.Auth.JwksFetch
import TranscriptionApi.Mcp.Session
import TranscriptionApi.Mcp.Tools
import TranscriptionApi.Mcp.Noninterference
import TranscriptionApi.Mcp.Pagination
import TranscriptionApi.Mcp.Start
import TranscriptionApi.Mcp.Deletes
import TranscriptionApi.Api.Transcriptions
import TranscriptionApi.Api.Upload
import TranscriptionApi.Api.UploadGate
import TranscriptionApi.Pipeline.Orchestrator
import TranscriptionApi.Pipeline.Advances
import TranscriptionApi.Pipeline.Lock
import TranscriptionApi.Pipeline.LockOwner
import TranscriptionApi.Pipeline.Deadline
import TranscriptionApi.Pipeline.Gpu
import TranscriptionApi.Pipeline.Cache
import TranscriptionApi.Pipeline.Purge
import TranscriptionApi.Pipeline.CacheMap
import TranscriptionApi.Pipeline.PurgeOutcome
import TranscriptionApi.Pipeline.PurgeSweep
import TranscriptionApi.Pipeline.CacheOps
import TranscriptionApi.Pipeline.Payload
import TranscriptionApi.Pipeline.Run
import TranscriptionApi.Pipeline.History
import TranscriptionApi.Pipeline.Hits
import TranscriptionApi.Pipeline.ReadBack
import TranscriptionApi.Pipeline.Expiry
import TranscriptionApi.Pipeline.CorruptEntry
import TranscriptionApi.Pipeline.PutPurge
import TranscriptionApi.Pipeline.FreshEntry
import TranscriptionApi.Pipeline.Diarize
import TranscriptionApi.Pipeline.Merge
import TranscriptionApi.Pipeline.Speakers
import TranscriptionApi.Pipeline.Miss
import TranscriptionApi.Pipeline.WavHash
import TranscriptionApi.Pipeline.NormalizedWav
import TranscriptionApi.Pipeline.FormatGate
import TranscriptionApi.Pipeline.Cleanup
import TranscriptionApi.Pipeline.PurgeSessions
import TranscriptionApi.Uploads.Files
import TranscriptionApi.Uploads.World
import TranscriptionApi.Uploads.Steps
import TranscriptionApi.Uploads.Invariants
import TranscriptionApi.Uploads.Status
import TranscriptionApi.Uploads.SingleUse
import TranscriptionApi.Uploads.Window
import TranscriptionApi.Uploads.Retry
import TranscriptionApi.Uploads.Content
import TranscriptionApi.Uploads.Deleted
import TranscriptionApi.Uploads.Images
import TranscriptionApi.Uploads.Atomic
import TranscriptionApi.Uploads.AudioRun
import TranscriptionApi.Uploads.ImageRun
import TranscriptionApi.Uploads.Served
import TranscriptionApi.Uploads.Capability
import TranscriptionApi.Uploads.Restart
import TranscriptionApi.Api.PostTranscription
import TranscriptionApi.Auth.Vault
import TranscriptionApi.Auth.Crypto
import TranscriptionApi.Auth.LoginFlow
import TranscriptionApi.Uploads.Durable
import TranscriptionApi.Api.Links
