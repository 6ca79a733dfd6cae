import Glider.Rule.Failures
import Glider.Rule.RotationLoss
import Glider.Rule.Check
import Glider.Rule.Balance
import Glider.Rule.Sticky
import Glider.Rule.Options
import Glider.Dns.Lru
import Glider.Dns.Records
import Glider.Dns.Upstream
import Glider.Dns.Accept
import Glider.Dns.Ttl
import Glider.Dhcpd.Leases
import Glider.Dhcpd.Reply
import Glider.Admin.Metrics
import Glider.Udp.PacketLoop
import Glider.Udp.OverStream
import Glider.Anytls.Synack
import Glider.Anytls.Link
import Glider.Anytls.RecvLoop
import Glider.Anytls.StreamDrain
import Glider.Anytls.PoolLedger
import Glider.Ss.Integrity
import Glider.Ss.StreamConn
import Glider.Vmess.Agree
import Glider.Proxy.Tail
import Glider.Proxy.Fallback
import Glider.Vless.Client
import Glider.Vless.Grammar
import Glider.Trojan.Client
import Glider.Http.Framing
import Glider.Http.Target
import Glider.Ws.Path
import Glider.Ws.Truncation
import Glider.Obfs.Writer
import Glider.Smux.Link
