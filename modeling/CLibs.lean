import CLibs.Cardlib.Game
import CLibs.Cardlib.WinPlans
import CLibs.Cardlib.Rebuild
import CLibs.Cardlib.HuProperties
import CLibs.Cardlib.Untouched
import CLibs.Cardlib.GroupOrder
import CLibs.Cardlib.ChiConservation
import CLibs.Cardlib.ChiMelds
import CLibs.Cardlib.OpeningHu
import CLibs.Libev.Dispatch
import CLibs.Libev.Registration
import CLibs.Libev.Polling
import CLibs.Libevwork.Sender
import CLibs.Libevwork.BufferLengths
import CLibs.Libevwork.ConnManager
import CLibs.Libevwork.WorkerPool
import CLibs.Libevwork.AsyncFlush
import CLibs.LibevworkUsing.ConnManager
import CLibs.LibevworkUsing.EndOfStream
import CLibs.LibevworkUsing.JsonPacket
import CLibs.LibevworkUsing.Lifetime
import CLibs.LibevworkUsing.WriteWatch
import CLibs.Queue.Sort
import CLibs.Rbtree.Crc32
import CLibs.Rbtree.NameTree
import CLibs.Rbtree.Timers
import CLibs.Robot.Connect
import CLibs.Robot.Hand
import CLibs.Robot.OutCard
import CLibs.Robot.Placement
import CLibs.Robot.Removal
import CLibs.Robot.Registries
import CLibs.SList.Sequences
import CLibs.Tinyredis.ContextSafety
import CLibs.Tinyredis.Routing
