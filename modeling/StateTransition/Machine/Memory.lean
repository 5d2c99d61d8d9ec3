import StateTransition.Word

/-! The byte-addressed memory of a frame. It continues with zeros past its end, and a write
past the end makes it longer by whole words. -/
namespace StateTransition

/-- The number of 32-byte words that cover `size` bytes. -/
def wordCount (size : Nat) : Nat := (size + 31) / 32

structure Memory where
  data : ByteArray

namespace Memory

def empty : Memory := ⟨ByteArray.empty⟩

def size (m : Memory) : Nat := m.data.size

def grow (m : Memory) (size : Nat) : Memory :=
  if m.data.size < size then ⟨m.data ++ zeroBytes (size - m.data.size)⟩ else m

def read (m : Memory) (offset size : Nat) : ByteArray := readPadded m.data offset size

def load (m : Memory) (offset : Nat) : Word := BitVec.ofNat 256 (natOfBuffer (m.read offset 32))

def write (m : Memory) (offset : Nat) (bytes : ByteArray) : Memory :=
  if bytes.isEmpty then m
  else
    let past := offset + bytes.size
    let m := if m.data.size < past then m.grow (32 * wordCount past) else m
    ⟨bytes.copySlice 0 m.data offset bytes.size⟩

def store (m : Memory) (offset : Nat) (w : Word) : Memory := m.write offset (bufferOfNat 32 w.toNat)

def storeByte (m : Memory) (offset : Nat) (b : UInt8) : Memory :=
  m.write offset (ByteArray.mk #[b])

end Memory

end StateTransition
