import Ogurpchik.Acceptor
import Ogurpchik.AcceptorClock
import Ogurpchik.Agreement
import Ogurpchik.Attacker
import Ogurpchik.Attestation
import Ogurpchik.BindUds
import Ogurpchik.Boundary
import Ogurpchik.Buffering
import Ogurpchik.Codec
import Ogurpchik.ConnectReady
import Ogurpchik.DecoderBounds
import Ogurpchik.Delivery
import Ogurpchik.Footprint
import Ogurpchik.Gate
import Ogurpchik.Link
import Ogurpchik.Network
import Ogurpchik.PidReuse
import Ogurpchik.PipeAcceptor
import Ogurpchik.PipeNamespace
import Ogurpchik.Receive
import Ogurpchik.Reencode
import Ogurpchik.Rejection
import Ogurpchik.Relay
import Ogurpchik.RuntimeDir
import Ogurpchik.ServiceName
import Ogurpchik.Signature
import Ogurpchik.SignedProcess
import Ogurpchik.SocketOwnership
import Ogurpchik.SparePool
import Ogurpchik.Transcript
import Ogurpchik.Truncation
import Ogurpchik.Vsock
import Ogurpchik.WireError
import Ogurpchik.WriteBound
import Ogurpchik.WslLookup
