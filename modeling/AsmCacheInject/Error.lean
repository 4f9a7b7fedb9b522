import Mathlib

namespace AsmCacheInject

/-! The crate-wide error type.  Operating-system errors keep the kind the
conversion looks at and the text it prints. -/

inductive ErrorKind
  | permissionDenied
  | unexpectedEof
  | writeZero
  | other
  deriving DecidableEq, Repr

structure OsError where
  kind : ErrorKind
  text : String
  deriving DecidableEq, Repr

inductive CacheError
  | config (message : String)
  | deviceNotFound (path : String)
  | notBlockDevice (path : String)
  | allocation (reason : String)
  | alignment (expected actual : Nat)
  | poolExhausted (inUse capacity : Nat)
  | io (operation : String) (source : OsError)
  | ioctl (name detail : String)
  | flushThread (reason : String)
  | internal (message : String)
  | lbaOutOfRange (lba maxLba : Nat)
  | permissionDenied (detail : String)
  deriving DecidableEq, Repr

namespace CacheError

/-- `CacheError::io`: permission failures are promoted to their own variant. -/
def ofIo (operation : String) (source : OsError) : CacheError :=
  match source.kind with
  | .permissionDenied =>
      .permissionDenied (operation ++ ": " ++ source.text)
  | _ => .io operation source

@[simp] theorem ofIo_ne_internal (operation : String) (source : OsError)
    (message : String) : ofIo operation source ≠ .internal message := by
  unfold ofIo
  split <;> simp

@[simp] theorem ofIo_ne_poolExhausted (operation : String) (source : OsError)
    (inUse capacity : Nat) :
    ofIo operation source ≠ .poolExhausted inUse capacity := by
  unfold ofIo
  split <;> simp

end CacheError

end AsmCacheInject
