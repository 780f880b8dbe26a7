import FuServer.Lib.Bytes
import FuServer.Lib.Codec
import FuServer.Lib.Decimal
import FuServer.Lib.HashMap
import FuServer.Lib.KeyedTable
import FuServer.Lib.KeyedStore
import FuServer.Lib.Outcome
import FuServer.Lib.Runs
import FuServer.Lib.Served
import FuServer.Lib.SqlText
import FuServer.Lib.SqlToken
import FuServer.Lib.SqlWhere
import FuServer.Lib.SqlTables
import FuServer.Lib.SqlEngine
import FuServer.Lib.SqlLiteral
import FuServer.Lib.Spans
import FuServer.Model.Convert
import FuServer.Model.Record
import FuServer.Model.Table
import FuServer.Model.Manager
import FuServer.Model.Protocol
import FuServer.Model.Serialize
import FuServer.Model.Server
import FuServer.Model.DataSet
import FuServer.Model.SqlServer
import FuServer.Model.Dispatch
import FuServer.Cache.TableSpec
import FuServer.Cache.KeyAgreement
import FuServer.Cache.KeyBounds
import FuServer.Cache.ManagerSpec
import FuServer.Cache.Loading
import FuServer.Cache.AutoKey
import FuServer.Cache.Safety
import FuServer.Cache.Refinement
import FuServer.Cache.Store
import FuServer.Cache.Scan
import FuServer.Cache.StringKeys
import FuServer.Backup.Commands
import FuServer.Backup.Pass
import FuServer.Backup.ExactlyOnce
import FuServer.Backup.Frame
import FuServer.Backup.Actions
import FuServer.Backup.Database
import FuServer.Backup.Pending
import FuServer.Backup.Race
import FuServer.Backup.Statement
import FuServer.Backup.Coherence
import FuServer.Backup.Restart
import FuServer.Wire.RoundTrip
import FuServer.Wire.Typed
import FuServer.Wire.Replies
import FuServer.Wire.QueryReply
import FuServer.Wire.Bounds
import FuServer.Client.Calls
import FuServer.Client.Completion
import FuServer.Client.Delivery
import FuServer.Client.Linear
import FuServer.Game.Outcomes
import FuServer.Game.Framing
import FuServer.Sql.Collect
import FuServer.Sql.Commit
import FuServer.Sql.Select
import FuServer.Sql.Cursor
import FuServer.Sql.Literals
import FuServer.Lib.Alloc
import FuServer.Model.MemPool
import FuServer.Utils.Increment
import FuServer.Utils.PoolSafety
import FuServer.Model.NetWin32
import FuServer.Net.Handlers
import FuServer.Net.Blocks
import FuServer.Net.Closing
import FuServer.Model.NetLibevent
import FuServer.Net.Links
import FuServer.Model.Log
import FuServer.Utils.LogWorker
import FuServer.Model.Queue
import FuServer.Utils.QueueFifo
import FuServer.Utils.QueueRing
import FuServer.Model.MysqlLink
import FuServer.Cache.ResultHandles
import FuServer.Cache.Inserts
import FuServer.Cache.LoadRows
import FuServer.Sql.WriteBack
import FuServer.Cache.Replace
import FuServer.Cache.FailedInsert
import FuServer.Cache.Overloads
import FuServer.Cache.Matches
import FuServer.Net.Recv
import FuServer.Sql.SetList
import FuServer.Sql.Fetch
import FuServer.Sql.Execute
import FuServer.Sql.WriteThrough
import FuServer.Sql.RowTexts
import FuServer.Sql.Session
import FuServer.Sql.Editors
import FuServer.Model.RecordBytes
import FuServer.Wire.RecordFormat
import FuServer.Wire.ReplyMatch
import FuServer.Wire.Plain
import FuServer.Cache.FieldOrder
import FuServer.Cache.NullFlag
import FuServer.Cache.KeyOrder
import FuServer.Sql.Conjunction
import FuServer.Game.StopWord
import FuServer.Net.Workers
import FuServer.Utils.FormatBuffer
import FuServer.Lib.Words
import FuServer.Model.Cipher
import FuServer.Utils.CipherInverse
import FuServer.Utils.CipherKey
import FuServer.Model.Encrypted
import FuServer.Net.Encrypted
import FuServer.Lib.Bracketed
import FuServer.Model.Config
import FuServer.Utils.ConfigFile
import FuServer.Utils.ConfigLife
import FuServer.Wire.Service
import FuServer.Wire.Durable
import FuServer.Backup.Crash
