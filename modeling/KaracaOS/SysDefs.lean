import Mathlib

namespace KaracaOS

-- SYS_RET of kernel/sysdefs.h.
inductive SysRet where
  | noError | unidentifiedError | outOfRange | noDevice | notFound | unavailable | initError
  | notImplemented | memAllocError | malformed | unsupported
  deriving DecidableEq, Repr

-- uint32_t arithmetic wraps here.
def word : Nat := 4294967296

end KaracaOS
