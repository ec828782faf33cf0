import CacheShfs.Cli.Comments
import CacheShfs.Cli.Containment
import CacheShfs.Cli.Numbers
import CacheShfs.Cli.Patterns
import CacheShfs.Cli.Sharing
import CacheShfs.Core.Path
import CacheShfs.Core.Remote
import CacheShfs.Lib.FiniteMap
import CacheShfs.Lib.Machine
import CacheShfs.Lib.Slice
import CacheShfs.Linux.Readdir
import CacheShfs.Linux.Session
import CacheShfs.Linux.Times
import CacheShfs.Linux.Whole
import CacheShfs.Remote.Memory
import CacheShfs.Sftp.Connection
import CacheShfs.Sftp.Lost
import CacheShfs.Sftp.Target
import CacheShfs.Store.Arithmetic
import CacheShfs.Store.Complete
import CacheShfs.Store.Concurrent
import CacheShfs.Store.Crash
import CacheShfs.Store.Failed
import CacheShfs.Store.Mirror
import CacheShfs.Store.Orphans
import CacheShfs.Store.Purity
import CacheShfs.Store.Subtree
import CacheShfs.Vfs.Agreement
import CacheShfs.Vfs.Deleted
import CacheShfs.Vfs.Hydrate
import CacheShfs.Vfs.Identity
import CacheShfs.Vfs.Immutable
import CacheShfs.Vfs.Liveness
import CacheShfs.Vfs.Outdated
import CacheShfs.Vfs.SameNode
import CacheShfs.Vfs.Unreachable
import CacheShfs.Vfs.Written
import CacheShfs.Vfs.ZeroTtl
import CacheShfs.Windows.Attr
import CacheShfs.Windows.Collisions
import CacheShfs.Windows.Deletions
import CacheShfs.Windows.Whole
