import LuaServer.Network.HttpBoundaries
import LuaServer.Network.HttpClose
import LuaServer.Network.HttpDelimitation
import LuaServer.Network.HttpIsolation
import LuaServer.Network.HttpLoop
import LuaServer.Network.HttpViews
import LuaServer.Network.KcpClient
import LuaServer.Network.KcpDatagram
import LuaServer.Network.KcpPacket
import LuaServer.Network.KcpServer
import LuaServer.Network.NetGetters
import LuaServer.Network.NetStream
import LuaServer.Network.TcpSocket
import LuaServer.Network.WebSocketClose
import LuaServer.Network.WebSocketHandshake
import LuaServer.Network.WebSocketControl
import LuaServer.Network.WebSocketHeaders
import LuaServer.Common.ThreadPool
import LuaServer.Utils.JsonLayout
import LuaServer.Common.ObjectPool
import LuaServer.Network.PacketClass
import LuaServer.Network.PooledPackets
import LuaServer.Network.PacketSend
import LuaServer.Network.KcpTimer
import LuaServer.Utils.JsonTokens
import LuaServer.Utils.JsonGrammar
import LuaServer.Utils.JsonSeparators
import LuaServer.Utils.JsonSpacing
import LuaServer.Utils.JsonRange
import LuaServer.Utils.JsonUnique
import LuaServer.Utils.JsonUpdate
import LuaServer.Utils.JsonLookup
import LuaServer.Db.SqlPrepare
import LuaServer.Db.SqlRead
import LuaServer.Db.SqlTable
import LuaServer.Db.SqlTask
import LuaServer.Db.RedisCommand
import LuaServer.Reasoning.BinaryHeap
import LuaServer.Common.Heap
import LuaServer.Common.HeapOrder
import LuaServer.Common.Timer
import LuaServer.Common.TimerSet
import LuaServer.Common.TimerDelay
import LuaServer.Common.Tools
import LuaServer.Network.WebSocketCuts
import LuaServer.Common.HttpParam
import LuaServer.Common.CsvParser
import LuaServer.Common.XLog
import LuaServer.Db.MysqlResult
import LuaServer.Utils.JsonBridge
import LuaServer.Network.IkcpDelivery
import LuaServer.Network.IkcpBounds
import LuaServer.Network.WebSocketAccept
import LuaServer.Utils.UrlFields
import LuaServer.Utils.UrlTarget
