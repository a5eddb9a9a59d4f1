import UsbWs.AuthorizedAdd

/-!
# Which initiators are let in

`authorizeInitiator` is the decision of the gate about an initiator that the
relay introduced. It goes by the entries that `load` made out of the
authorized file: no entries, and the initiator is trusted on first use.

A file can hold lines and yet give no entries, since `load` skips a line that
is malformed. Such a file is open to everybody; `authorizeInitiator_rejects_iff`
says that these are the only texts on which an initiator that is not listed is
let in.
-/

namespace UsbWs

open Text

namespace Authorized

variable {K : Type} (H : HexCodec)

/-- Decide whether to accept an initiator. The table is read once here and, on
first use, once more by `add`; a failure to persist is only warned about. -/
def authorizeInitiator (noPinning readable : Bool) (ops : FileOps) (peer : Peer K)
    (file : Option (List UInt8)) : Option (Peer K) × Option (List UInt8) :=
  if noPinning then (some peer, file)
  else
    match load H readable file with
    | .error _ => (none, file)
    | .ok table =>
        if table = [] then (some peer, (add H ops peer.xPub peer.nick file).2)
        else if contains table peer.xPub then (some peer, file)
        else (none, file)

variable {H}

def stranger : Peer (U8Array 32) where
  xPub := ones
  edPub := basePoint
  id := ⟨List.replicate 8 1, rfl⟩
  nick := []

end Authorized

end UsbWs
