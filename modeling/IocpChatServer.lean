import IocpChatServer.Foundations.Loop
import IocpChatServer.Foundations.Framing
import IocpChatServer.ServerCore.SessionRecv
import IocpChatServer.ServerCore.FrameRoundTrip
import IocpChatServer.ServerCore.RecvConservation
import IocpChatServer.ServerCore.RecvHeadroom
import IocpChatServer.ServerCore.RecvQueue
import IocpChatServer.ServerCore.LockBalance
import IocpChatServer.ServerCore.LockIdentity
import IocpChatServer.ServerCore.LockOrder
import IocpChatServer.ServerCore.SendLoss
import IocpChatServer.ServerCore.SessionAttention
import IocpChatServer.ServerCore.AcceptRearming
import IocpChatServer.ServerCore.BufferBounds
import IocpChatServer.ServerCore.BufferRoundTrip
import IocpChatServer.ServerCore.ContainerMemory
import IocpChatServer.ServerCore.TypeCast
import IocpChatServer.ServerCore.SharedCounts
import IocpChatServer.ServerCore.SendBufferMemory
import IocpChatServer.Tools.ProtoLayout
import IocpChatServer.GameServer.PacketDispatch
import IocpChatServer.GameServer.Nicknames
import IocpChatServer.GameServer.NullSafety
import IocpChatServer.GameServer.Membership
import IocpChatServer.GameServer.Indexes
import IocpChatServer.GameServer.RefusedJoin
import IocpChatServer.GameServer.RoomCapacity
import IocpChatServer.GameServer.Removal
import IocpChatServer.GameServer.Ownership
import IocpChatServer.GameServer.RoomOrder
import IocpChatServer.DummyClient.RoomAgreement
import IocpChatServer.GameServer.LockHierarchy
import IocpChatServer.DummyClient.SocketNetwork
import IocpChatServer.GameServer.HandlersInTurn
import IocpChatServer.DummyClient.Conversation
import IocpChatServer.DummyClient.Settling
import IocpChatServer.DummyClient.RoomList
import IocpChatServer.DummyClient.ConsoleUI
import IocpChatServer.ServerCore.SendLink
import IocpChatServer.DummyClient.Answers
import IocpChatServer.DummyClient.Identities
import IocpChatServer.ServerCore.DebugLocks
import IocpChatServer.GameServer.DebugBuild
