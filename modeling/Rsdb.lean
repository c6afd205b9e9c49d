import Rsdb.Proto.FrameStream
import Rsdb.Daemon.PullBatch
import Rsdb.Transfer.Containment
import Rsdb.Client.RemoteRoots
import Rsdb.Transfer.Push
import Rsdb.Transfer.Pull
import Rsdb.Client.Registry
import Rsdb.Client.Edit
import Rsdb.Client.InlineContent
import Rsdb.Daemon.Pull
import Rsdb.Daemon.Service
import Rsdb.Daemon.Exec
import Rsdb.Daemon.RelayProgress
import Rsdb.Transfer.Accepted
import Rsdb.Daemon.FsMove
import Rsdb.Daemon.FsWriteLaw
import Rsdb.Daemon.FsWritten
import Rsdb.Daemon.FsListLaw
import Rsdb.Client.TransferState
import Rsdb.Daemon.ShellQuote
import Rsdb.Client.RegistryNormal
import Rsdb.Client.RegistryRaces
import Rsdb.Client.ExecEvents
import Rsdb.Client.ExecTimeout
import Rsdb.Client.Completion
import Rsdb.Transfer.Distinct
import Rsdb.Client.Address
import Rsdb.Client.Discover
import Rsdb.Proto.ControlSerde
import Rsdb.Proto.FrameExact
import Rsdb.Client.ManifestFilter
import Rsdb.Transfer.RelativePath
import Rsdb.Daemon.GuardedWrites
import Rsdb.Client.RemoteShell
import Rsdb.Transfer.Confined
import Rsdb.Client.VerifiedPull
import Rsdb.Daemon.Push
import Rsdb.Daemon.FsRegister
