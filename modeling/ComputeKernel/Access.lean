/-!
# Access modes

How a kernel uses an image: it only reads it, only writes it, or does both.
-/

namespace ComputeKernel

inductive Access where
  | read
  | write
  | readWrite
  deriving DecidableEq, Repr

namespace Access

def ofName? : String → Option Access
  | "r" | "read" | "readonly" | "read_only" => some read
  | "w" | "write" | "writeonly" | "write_only" => some write
  | "rw" | "read_write" | "readwrite" => some readWrite
  | _ => none

def name : Access → String
  | read => "read"
  | write => "write"
  | readWrite => "read_write"

/-- The name of the mode in the device's log. -/
def deviceName : Access → String
  | read => "ReadOnly"
  | write => "WriteOnly"
  | readWrite => "ReadWrite"

@[simp] theorem ofName?_name (a : Access) : ofName? a.name = some a := by
  cases a <;> rfl

end Access

end ComputeKernel
