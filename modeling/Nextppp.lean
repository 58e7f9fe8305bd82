import Nextppp.Core.Ssea
import Nextppp.Core.Cipher
import Nextppp.Core.Modes
import Nextppp.Core.Base94
import Nextppp.Core.Frames
import Nextppp.Core.SessionId
import Nextppp.Core.Conversation
import Nextppp.Core.Agreement
import Nextppp.Core.Keystream
import Nextppp.Core.Simd
import Nextppp.Core.Tamper
import Nextppp.Mux.Link
import Nextppp.Mux.Writer
import Nextppp.Common.Dns
import Nextppp.Common.DnsCalls
import Nextppp.Common.Connect
import Nextppp.Client.Socks5
import Nextppp.Client.Dial
import Nextppp.Client.Pool
import Nextppp.Client.Streams
import Nextppp.Client.Lane
import Nextppp.Server.Lane
import Nextppp.Server.Streams
import Nextppp.Mux.Teardown
import Nextppp.Mux.Pump
import Nextppp.Mux.Wire
import Nextppp.Mux.Accept
import Nextppp.Mux.Complete
import Nextppp.Client.OpenStream
import Nextppp.Core.Hostile
import Nextppp.Mux.Pumped
import Nextppp.Server.SessionIds
import Nextppp.Client.Inbound
import Nextppp.Client.Bond
import Nextppp.Client.Config
import Nextppp.Core.Packets
