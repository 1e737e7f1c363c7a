import TcpChat.Framing.RoundTrip
import TcpChat.Framing.Stepwise
import TcpChat.Framing.Agreement
import TcpChat.Framing.Grammar
import TcpChat.FramingServer.Backpressure
import TcpChat.FramingServer.Isolation
import TcpChat.FramingServer.FanOut
import TcpChat.FramingServer.Listen
import TcpChat.FramingServer.Output
import TcpChat.FramingSession.Accounting
import TcpChat.FramingSession.Ending
import TcpChat.FramingClient.Wakeups
import TcpChat.FramingClient.Teardown
import TcpChat.FramingClient.Drain
import TcpChat.FramingClient.Overflow
import TcpChat.FramingClient.Readers
import TcpChat.FramingClient.RxQueue
import TcpChat.FramingClient.Connect
import TcpChat.FramingClient.Output
import TcpChat.FramingClient.Incoming
import TcpChat.FramingServer.Incoming
import TcpChat.FramingServer.Input
import TcpChat.FramingServer.Stopped
import TcpChat.FramingRoom.Rest
import TcpChat.Shutdown
import TcpChat.BlockingServer.Stopped
import TcpChat.BlockingClient.Ending
import TcpChat.BlockingRoom.Conversation
import TcpChat.Poll.OnePeer
import TcpChat.Epoll.Delivery
import TcpChat.Descriptors
import TcpChat.Select.Stream
import TcpChat.Select.Monitor
import TcpChat.Select.Lifecycle
import TcpChat.SelectClient.Stream
import TcpChat.PollClient.Descriptor
import TcpChat.Relaying
import TcpChat.EventRoom.Model
import TcpChat.EventRoom.Conversation
import TcpChat.SelectClient.Loop
import TcpChat.EpollClient.SendMutex
import TcpChat.EpollClient.Arming
import TcpChat.EpollClient.Stream
import TcpChat.Iocp.SendOrder
import TcpChat.Iocp.SendQueue
import TcpChat.Iocp.Lifetime
import TcpChat.Iocp.Accepts
import TcpChat.Iocp.Receives
import TcpChat.IocpClient.Sends
