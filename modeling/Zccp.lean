import Zccp.Broker.Delivery
import Zccp.Broker.Malformed
import Zccp.Broker.Sessions
import Zccp.Broker.Reentrancy
import Zccp.Broker.Isolation
import Zccp.Broker.Store
import Zccp.Broker.Logging
import Zccp.Client.Survival
import Zccp.Client.Wire
import Zccp.Client.Lossless
import Zccp.Client.Accept
import Zccp.Joint.Agreement
import Zccp.Joint.Converge
import Zccp.Joint.Answers
import Zccp.Msg.Walk
import Zccp.Msg.Exact
import Zccp.Go.Unmarshal
import Zccp.Codecs
import Zccp.Duplicates
import Zccp.Java.Recv
import Zccp.Network.Survival
import Zccp.Network.Converge
import Zccp.Broker.Timeouts
import Zccp.Broker.Interleaving
import Zccp.Interop
import Zccp.Memory.Calls
