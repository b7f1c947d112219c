import Jrpc2.Wire
import Jrpc2.Decimal
import Jrpc2.Scanner
import Jrpc2.RawMap
import Jrpc2.Compact
import Jrpc2.CompactScan
import Jrpc2.Nesting
import Jrpc2.Rescan
import Jrpc2.RawObject
import Jrpc2.Error
import Jrpc2.ErrorData
import Jrpc2.Client.Basic
import Jrpc2.Client.System
import Jrpc2.Client.Frame
import Jrpc2.Client.Stop
import Jrpc2.Client.Ids
import Jrpc2.Client.Wrap
import Jrpc2.Client.Once
import Jrpc2.Client.Cancel
import Jrpc2.Client.Received
import Jrpc2.Client.Answers
import Jrpc2.Client.Batch
import Jrpc2.Handler.Assign
import Jrpc2.Handler.Reflect
import Jrpc2.Handler.Adapter
import Jrpc2.Handler.Args
import Jrpc2.Handler.Obj
import Jrpc2.Metrics.Collector
import Jrpc2.Metrics.Locked
