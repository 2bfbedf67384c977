import Sprawl.P2p.Basic
import Sprawl.P2p.Framing
import Sprawl.P2p.ReadLoop
import Sprawl.P2p.Broadcast
import Sprawl.P2p.PeerChan
import Sprawl.P2p.Registry
import Sprawl.P2p.Bootstrap
import Sprawl.Service.Order
