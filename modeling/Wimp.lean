import Wimp.Reciever.Failures
import Wimp.Reciever.Delivery
import Wimp.Reciever.Bounds
import Wimp.Reciever.Closing
import Wimp.Utility.HashTable
import Wimp.Utility.SimpleArena
import Wimp.Utility.ArenaRequests
import Wimp.Data.RefCount
import Wimp.ProcessTable
import Wimp.Server.WaitResponse
import Wimp.Server.LockPairing
import Wimp.Server.Ownership
import Wimp.Server.SendStream
import Wimp.Lib.Relay
import Wimp.Lib.Cursor
import Wimp.Lib.SerialHistory
import Wimp.Network.Delivery
import Wimp.Network.Wire.Progress
import Wimp.Network.Wire.Calls
import Wimp.Instr.RoundTrip
import Wimp.Instr.Bounds
import Wimp.Instr.StrPack
import Wimp.Server.Queues
import Wimp.Server.Response
import Wimp.Instr.PriorityLock
import Wimp.Instr.LinkedQueue
import Wimp.Instr.LockedQueue
import Wimp.Instr.QueueLife.Count
import Wimp.ProcessTable.FiniteMap
import Wimp.Server.FreeTable
import Wimp.Server.AcceptEveryone
import Wimp.Server.AcceptAlone
import Wimp.Server.Handshake.Agreement
import Wimp.Data.Arenas
import Wimp.Process
import Wimp.Log.Bounds
import Wimp.Log.Rendering
import Wimp.Data.Segments.Names
import Wimp.Data.Exclusion.Runs
import Wimp.Data.Exclusion.Waiting
import Wimp.Data.Reserve
import Wimp.Data.Segments.Clearing
