/-!
Cyclic redundancy checks of 32 bits over the reflected polynomial `0xEDB88320`, from all ones to
their complement, so that no bytes check to zero.
-/
namespace Rewind.Checksum

def shift (register : UInt32) : UInt32 :=
  if register &&& 1 = 1 then (register >>> 1) ^^^ 0xEDB88320 else register >>> 1

/-- What a byte at the low end of the register turns into. -/
def entry (b : Nat) : UInt32 := Nat.repeat shift 8 (UInt32.ofNat b)

def table : Array UInt32 := Array.ofFn fun b : Fin 256 => entry b

def step (register : UInt32) (b : UInt8) : UInt32 :=
  table.getD ((register ^^^ b.toUInt32) &&& 0xff).toNat 0 ^^^ (register >>> 8)

def crc32 (bytes : Array UInt8) : UInt32 := bytes.foldl step 0xffffffff ^^^ 0xffffffff

end Rewind.Checksum
