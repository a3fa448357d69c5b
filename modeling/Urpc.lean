import Urpc.Api.FailFast
import Urpc.Api.Unary
import Urpc.Api.WriteTruth
import Urpc.Channel.Cancel
import Urpc.Channel.Leftovers
import Urpc.Channel.Response
import Urpc.Channel.Routing
import Urpc.Channel.StaleErase
import Urpc.Channel.Timeout
import Urpc.Channel.Truthful
import Urpc.Delivery
import Urpc.Generator.Balance
import Urpc.Generator.MsgInit
import Urpc.Loop.Post
import Urpc.Loop.Stop
import Urpc.OneBody
import Urpc.PendingBodies
import Urpc.RegisterService
import Urpc.Registry
import Urpc.Server.Admission
import Urpc.Server.Cancellation
import Urpc.Server.CleanEnd
import Urpc.Server.GrpcTimeout
import Urpc.Server.Isolation
import Urpc.Server.Removal
import Urpc.Server.RequestTrailers
import Urpc.Server.Respond
import Urpc.Server.Retained
import Urpc.Server.Sockets
import Urpc.Session.BodyRead
import Urpc.StrictStatus
