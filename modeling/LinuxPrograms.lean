import LinuxPrograms.Lib.CInt
import LinuxPrograms.Lib.CString
import LinuxPrograms.Lib.FrameStream
import LinuxPrograms.Lib.IndexedStores
import LinuxPrograms.Lib.LabelledSystem
import LinuxPrograms.Lib.Merge
import LinuxPrograms.Lib.OpenFiles
import LinuxPrograms.Lib.Permits
import LinuxPrograms.Lib.SeqTraversal
import LinuxPrograms.Lib.SysVSem
import LinuxPrograms.Lib.UserCopy
import LinuxPrograms.DoorBell.Data
import LinuxPrograms.DoorBell.System
import LinuxPrograms.DoorBell.Distance
import LinuxPrograms.DoorBell.DeadThread
import LinuxPrograms.DoorBell.ThreadCheck
import LinuxPrograms.DoorBell.Moves
import LinuxPrograms.DoorBell.Queue
import LinuxPrograms.DoorBell.Sequential
import LinuxPrograms.DoorBell.Simulation
import LinuxPrograms.DoorBell.OneActivity
import LinuxPrograms.DoorBell.Protocol
import LinuxPrograms.DoorBell.Steady
import LinuxPrograms.DoorBell.Determinism
import LinuxPrograms.DoorBell.NeverDead
import LinuxPrograms.DoorBell.Retries
import LinuxPrograms.DoorBell.Channels
import LinuxPrograms.DoorBell.Threads
import LinuxPrograms.DoorBell.MonitorReceive
import LinuxPrograms.DoorBell.WorkerRead
import LinuxPrograms.DoorBell.Sensors
import LinuxPrograms.DoorBell.Reboot
import LinuxPrograms.Driver.Scull
import LinuxPrograms.Driver.History
import LinuxPrograms.Driver.Pieces
import LinuxPrograms.Driver.UserProcess
import LinuxPrograms.Driver.ByteCount
import LinuxPrograms.Driver.Bounds
import LinuxPrograms.Driver.ZeroReturn
import LinuxPrograms.Driver.SeqIterator
import LinuxPrograms.Socket.Payload
import LinuxPrograms.Socket.ReadThread
import LinuxPrograms.Socket.Accept
import LinuxPrograms.Socket.Pipe
import LinuxPrograms.Semaphore.Object
import LinuxPrograms.Semaphore.Rotation
import LinuxPrograms.Semaphore.SharedStruct
import LinuxPrograms.Semaphore.TwoChildren
import LinuxPrograms.Semaphore.TwoPrograms
import LinuxPrograms.CondVar.Rotation
import LinuxPrograms.CondVar.Progress
import LinuxPrograms.Ipc.Messages
import LinuxPrograms.Lib.SharedCounters
import LinuxPrograms.Lib.LostUpdates
import LinuxPrograms.Lib.LockedCounters
import LinuxPrograms.Threads.Race
import LinuxPrograms.Threads.Mutex
import LinuxPrograms.Lib.BlockStore
import LinuxPrograms.Driver.CharDev
import LinuxPrograms.Driver.CharDevHistory
import LinuxPrograms.CondVar.TwoThreads
import LinuxPrograms.Lib.Observation
import LinuxPrograms.DoorBell.StartUp
import LinuxPrograms.DoorBell.LostThread
import LinuxPrograms.Lib.Relay
import LinuxPrograms.Lib.FrameRelay
import LinuxPrograms.Lib.Scanf
import LinuxPrograms.Ipc.WordPipe
import LinuxPrograms.Lib.SysVMsg
import LinuxPrograms.Ipc.QueuePrograms
import LinuxPrograms.Ipc.QueueDelivery
import LinuxPrograms.Socket.OneByOne
import LinuxPrograms.Socket.InOrder
