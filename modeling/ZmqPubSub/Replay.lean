import ZmqPubSub.Inspector

/-!
The inspector sends a row of its table again, over a worker of its own that the broker knows as
`Inspector-Replay`. The broker takes the copy for a new message of that client.
-/

namespace ZmqPubSub

open Containers TransitionSystem

namespace MainWindow

variable {q : FilterProxy} (win : MainWindow q)

end MainWindow

section

variable {ω : Type*} {pb : Protobuf} {b : Broker ω} {p : InspectorPacket} {fresh fresh' : Uuid}
  {now : Time}

end

namespace Inspector

variable {q : FilterProxy} {ω : Type*} {toLower : String → String} {pb : Protobuf}
  {s s₀ : Inspector q ω} {tr : List (Event ω × Inspector q ω)}

end Inspector

end ZmqPubSub
