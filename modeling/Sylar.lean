import Sylar.Address.Interface
import Sylar.Address.Lookup
import Sylar.Address.Order
import Sylar.Address.Subnet
import Sylar.Address.Text
import Sylar.ByteArray.Capacity
import Sylar.ByteArray.Files
import Sylar.ByteArray.Flat
import Sylar.ByteArray.Scatter
import Sylar.ByteArray.Views
import Sylar.ByteArray.Zigzag
import Sylar.Config.Cast
import Sylar.Config.FromString
import Sylar.Config.Listeners
import Sylar.Config.Load
import Sylar.Env.Init
import Sylar.Fd.Handles
import Sylar.Fd.Nonblock
import Sylar.Fiber.Switching
import Sylar.Hook.Sleep
import Sylar.Hook.Timeout
import Sylar.Http.Body
import Sylar.Http.Calls
import Sylar.Http.Chunk
import Sylar.Http.Chunked
import Sylar.Http.ClientGrammar
import Sylar.Http.ClientTrack
import Sylar.Http.Decoded
import Sylar.Http.Dump
import Sylar.Http.Exchange
import Sylar.Http.Fetch
import Sylar.Http.Framing
import Sylar.Http.Headers
import Sylar.Http.Limits
import Sylar.Http.Memory
import Sylar.Http.Method
import Sylar.Http.OutOfStep
import Sylar.Http.Ranges
import Sylar.Http.Request
import Sylar.Http.Servlet
import Sylar.Http.Session
import Sylar.IOManager.Bookkeeping
import Sylar.IOManager.Bounds
import Sylar.IOManager.Table
import Sylar.Log.Codec
import Sylar.Log.Inherit
import Sylar.Log.Pattern
import Sylar.Log.Reconcile
import Sylar.Pool.Limits
import Sylar.Scheduler.Account
import Sylar.Scheduler.Affinity
import Sylar.Scheduler.Exclusive
import Sylar.Scheduler.Stopping
import Sylar.Scheduler.Timeout
import Sylar.Scheduler.Wakeup
import Sylar.Stream.Transfer
import Sylar.Thread.Locks
import Sylar.Thread.Start
import Sylar.Timer.Delivery
import Sylar.Timer.Front
import Sylar.Timer.Integrity
import Sylar.Timer.Notify
import Sylar.Timer.Reschedule
import Sylar.Uri.Decompose
import Sylar.Uri.RoundTrip
