import BitBridge.Bytes

/-!
# The relay buffers

`std::array<char, BUFFER_SIZE>`: a buffer always holds `BUFFER_SIZE` bytes.  A
read overwrites a prefix (`fill`), and a write sends a prefix (`take`).
-/

namespace BitBridge.Proxy

def BUFFER_SIZE : Nat := 8192

structure Buffer where
  data : Bytes
  size_eq : data.length = BUFFER_SIZE

namespace Buffer

/-- `m_clientBuf{}`. -/
def zeroed : Buffer := ⟨List.replicate BUFFER_SIZE 0, List.length_replicate⟩

/-- A read stores its bytes at the front; it never gets more than fit. -/
def fill (b : Buffer) (chunk : Bytes) : Buffer :=
  ⟨(chunk ++ b.data.drop chunk.length).take BUFFER_SIZE, by
    rw [List.length_take, List.length_append, List.length_drop, b.size_eq]; omega⟩

def take (b : Buffer) (n : Nat) : Bytes := b.data.take n

theorem length_take (b : Buffer) {n : Nat} (h : n ≤ BUFFER_SIZE) : (b.take n).length = n := by
  rw [take, List.length_take, b.size_eq, Nat.min_eq_left h]

theorem take_fill (b : Buffer) {chunk : Bytes} (h : chunk.length ≤ BUFFER_SIZE) :
    (b.fill chunk).take chunk.length = chunk := by
  rw [take, fill, List.take_take, Nat.min_eq_left h, List.take_left]

end Buffer

end BitBridge.Proxy
