import FileUploader.Await.Discipline
import FileUploader.Store.ExpiringMap
import FileUploader.Store.Runs
import FileUploader.Domain
import FileUploader.Infrastructure.Calls
import FileUploader.UseCases
import FileUploader.Service
import FileUploader.SessionDiscipline
import FileUploader.Leases
import FileUploader.Locking
import FileUploader.NoResurrection
import FileUploader.NoLostUpdate
import FileUploader.CommitDiscipline
import FileUploader.ScanBeforeCommit
import FileUploader.Assembly
import FileUploader.FetchDiscipline
import FileUploader.DeclaredDigest
import FileUploader.Registry
import FileUploader.Immutability
import FileUploader.Serial
import FileUploader.RetrySafety
import FileUploader.CachedRun
import FileUploader.ResumeOffset
import FileUploader.Truncation
import FileUploader.Store.Occurrences
import FileUploader.Scanner
import FileUploader.SessionInvariant
import FileUploader.WriteOrdering
import FileUploader.RoundTrip
import FileUploader.Expiry
import FileUploader.Recovery
import FileUploader.DedupUniqueness
import FileUploader.Keyspace
import FileUploader.Tenancy
import FileUploader.Presentation.Uploads
import FileUploader.TenantIsolation
import FileUploader.Await.Renaming
import FileUploader.Await.Deletion
import FileUploader.UploadIds
import FileUploader.Noninterference
import FileUploader.Refusals
import FileUploader.Await.Trace
import FileUploader.StatusReport
import FileUploader.Footprint
import FileUploader.LockBalance
import FileUploader.Faults
import FileUploader.UploadOrder
import FileUploader.Progress
import FileUploader.Cleanup
import FileUploader.DedupCompleteness
import FileUploader.Multipart
import FileUploader.Quarantine
import FileUploader.ChunkReaders
import FileUploader.Publisher
import FileUploader.Text.Json
import FileUploader.Payloads
import FileUploader.Await.Implementation
import FileUploader.Store.KeyServer
import FileUploader.Infrastructure.Commands
import FileUploader.RedisWorld
import FileUploader.CommandAtomicity
import FileUploader.UploadServer
import FileUploader.ServerRefinement
import FileUploader.DeployedServer
import FileUploader.DeployedRepositories
import FileUploader.Await.Credit
import FileUploader.BoundedWork
import FileUploader.OpenUploads
import FileUploader.RedisContents
import FileUploader.Answers
import FileUploader.Delivery
