import Sylar.Foundation.Paged

/-!
# The linked-node byte array

`ByteArray` keeps its bytes in a chain of nodes of `baseSize` bytes each. `root` is the chain in
link order from `m_root` on, and a node pointer is the number of links followed from `m_root`, or
`none` for a null pointer; `cur` is `m_cur`. Following a null pointer is the error `nullNode`: the
program has no behaviour from there on. A `std::out_of_range` leaves the state of the moment of
the throw.

The bytes of a new node are indeterminate: `heap` is the sequence of bytes the allocator will hand
out next, and a statement about every `heap` is about whatever memory happens to hold.

## Main definitions

* `Node`, `ByteArray`, `Error`, `Op`: the state and its operations
* `addCapacity`, `write`, `read`, `setPosition`, `clear`, `getWriteBuffers`: the core members
* `readFromFile`: loading a file chunk by chunk
* `Iovec`, `getReadBuffers`: the unread bytes as ranges of node buffers
-/

namespace Sylar

open Foundation (splice)

/-- `SYLAR_LITTLE_ENDIAN` and `SYLAR_BIG_ENDIAN`. -/
inductive Endian
  | little
  | big
  deriving DecidableEq, Repr

/-- A node: its buffer of `size` bytes. -/
structure Node where
  ptr : List UInt8
  deriving DecidableEq, Repr

namespace Node

/-- The number of bytes of the buffer. -/
def size (n : Node) : ℕ := n.ptr.length

/-- `Node(size_t s)`: a buffer of `s` bytes off the heap. -/
def alloc (heap : ℕ → UInt8) (s : ℕ) : Node := ⟨(List.range s).map heap⟩

/-- `memcpy` into the buffer at `npos`. -/
def store (n : Node) (npos : ℕ) (buf : List UInt8) : Node := ⟨splice n.ptr npos buf⟩

/-- `memcpy` of `len` bytes out of the buffer at `npos`. -/
def load (n : Node) (npos len : ℕ) : List UInt8 := (n.ptr.drop npos).take len

end Node

structure ByteArray where
  baseSize : ℕ
  position : ℕ
  capacity : ℕ
  size : ℕ
  endian : Endian
  root : List Node
  cur : Option ℕ
  heap : ℕ → UInt8

namespace ByteArray

/-- What ends an operation early. -/
inductive Error
  /-- `std::out_of_range` with its message. -/
  | outOfRange (what : String)
  /-- A null `Node*` is followed. -/
  | nullNode
  /-- A store past the end of a temporary. -/
  | overrun
  deriving DecidableEq, Repr

/-- A member of `ByteArray`: a result and the state it leaves, or an error. -/
abbrev Op := EStateM Error ByteArray

/-- The constructor. -/
def new (base_size : ℕ) (heap : ℕ → UInt8) : ByteArray where
  baseSize := base_size
  position := 0
  capacity := base_size
  size := 0
  endian := .big
  root := [Node.alloc heap base_size]
  cur := some 0
  heap := fun i => heap (i + base_size)

def setIsLittleEndian (val : Bool) : Op Unit :=
  modify fun ba => { ba with endian := if val then .little else .big }

/-- The part that can be read. -/
def getReadSize (ba : ByteArray) : ℕ := ba.size - ba.position

/-- The capacity left. -/
def getCapacity (ba : ByteArray) : ℕ := ba.capacity - ba.position

/-- The pointer reached by following `i` links from `m_root`. -/
def link (ba : ByteArray) (i : ℕ) : Option ℕ := if i < ba.root.length then some i else none

/-- The chain from a pointer on; a null pointer heads no chain. -/
def chain (ba : ByteArray) : Option ℕ → List Node
  | none => []
  | some i => ba.root.drop i

/-- The `m_cur` of `k` links after `p`. -/
def advance (ba : ByteArray) (p : Option ℕ) (k : ℕ) : Option ℕ := p.bind fun i => ba.link (i + k)

/-! ## Growing -/

/-- One turn of the loop that appends nodes: a node at the end of the chain. -/
def pushNode (ba : ByteArray) : ByteArray :=
  { ba with
    root := ba.root ++ [Node.alloc ba.heap ba.baseSize]
    capacity := ba.capacity + ba.baseSize
    heap := fun i => ba.heap (i + ba.baseSize) }

/-- The loop that appends `count` nodes. -/
def pushNodes : ℕ → ByteArray → ByteArray
  | 0, ba => ba
  | count + 1, ba => pushNodes count ba.pushNode

/-- The number of nodes `addCapacity` computes for the bytes that are missing. -/
def nodeCount (baseSize old_cap size : ℕ) : ℕ :=
  size / baseSize + if old_cap < size % baseSize then 1 else 0

def addCapacity (size : ℕ) : Op Unit := do
  if size = 0 then
    return
  let ba ← get
  let old_cap := ba.getCapacity
  -- `getCapacity` is what is left behind the position
  if size ≤ old_cap then
    return
  let count := nodeCount ba.baseSize old_cap (size - old_cap)
  let grown := pushNodes count ba
  -- `first` is the first new node, and null when the loop appends none
  set (if old_cap = 0 then { grown with cur := grown.link ba.root.length } else grown)

/-! ## Writing and reading -/

/-- The loop of `write` from a node on, at offset `npos` in it: the rewritten chain and the number
of links `m_cur` follows. -/
def writeLoop : List Node → ℕ → List UInt8 → Option (List Node × ℕ)
  | [], _, _ => none
  | n :: ns, npos, buf =>
    let ncap := n.size - npos
    -- the last node; a node that is filled exactly is left
    if buf.length ≤ ncap then
      some (n.store npos buf :: ns, if n.size = npos + buf.length then 1 else 0)
    else
      -- the node is filled, and the rest goes to the next
      (writeLoop ns 0 (buf.drop ncap)).map fun r =>
        (n.store npos (buf.take ncap) :: r.1, r.2 + 1)

def write (buf : List UInt8) : Op Unit := do
  if buf.length = 0 then
    return
  addCapacity buf.length
  let ba ← get
  match writeLoop (ba.chain ba.cur) (ba.position % ba.baseSize) buf with
  | none => throw .nullNode
  | some (ns, k) =>
    let position := ba.position + buf.length
    set { ba with
      root := ba.root.take (ba.cur.getD 0) ++ ns
      cur := ba.advance ba.cur k
      position := position
      -- the size follows the position, and never shrinks here
      size := if ba.size < position then position else ba.size }

/-- The loop of `read` from a node on, at offset `npos` in it: the bytes and the number of links
`m_cur` follows. -/
def readLoop : List Node → ℕ → ℕ → Option (List UInt8 × ℕ)
  | [], _, _ => none
  | n :: ns, npos, size =>
    let ncap := n.size - npos
    -- the size of `m_cur` is looked at before the test of the loop
    if size = 0 then
      some ([], 0)
    else if size ≤ ncap then
      some (n.load npos size, if n.size = npos + size then 1 else 0)
    else
      (readLoop ns 0 (size - ncap)).map fun r => (n.load npos ncap ++ r.1, r.2 + 1)

def read (size : ℕ) : Op (List UInt8) := do
  let ba ← get
  if ba.getReadSize < size then
    throw (.outOfRange "not enough len")
  match readLoop (ba.chain ba.cur) (ba.position % ba.baseSize) size with
  | none => throw .nullNode
  | some (buf, k) =>
    set { ba with position := ba.position + size, cur := ba.advance ba.cur k }
    return buf

/-- `read(buf, size, position) const`: the walk starts at `m_cur`, whatever `position` is. -/
def readAt (size position : ℕ) : Op (List UInt8) := do
  let ba ← get
  if ba.getReadSize < size then
    throw (.outOfRange "not enough len")
  -- the position is used for the offset alone: the node is that of `m_cur`
  match readLoop (ba.chain ba.cur) (position % ba.baseSize) size with
  | none => throw .nullNode
  | some (buf, _) => return buf

def toString : Op (List UInt8) := do
  let ba ← get
  if ba.getReadSize = 0 then
    return []
  readAt ba.getReadSize ba.position

/-! ## Moving -/

/-- The search of `setPosition` for the node of offset `v`: the number of links followed, or
nothing when it follows a null pointer. -/
def seekLoop : List Node → ℕ → Option ℕ
  | [], _ => none
  | n :: ns, v =>
    if n.size < v then
      (seekLoop ns (v - n.size)).map (· + 1)
    else
      -- at the end of a node the next one is current
      some (if v = n.size then 1 else 0)

def setPosition (v : ℕ) : Op Unit := do
  let ba ← get
  if ba.capacity < v then
    throw (.outOfRange "set_position out of range")
  match seekLoop ba.root v with
  | none => throw .nullNode
  | some k =>
    set { ba with
      position := v
      -- a position behind the size moves the size
      size := if ba.size < v then v else ba.size
      cur := ba.link k }

/-- All nodes but the first are deleted. -/
def clear : Op Unit :=
  modify fun ba =>
    { ba with
      position := 0
      size := 0
      capacity := ba.baseSize
      root := ba.root.take 1
      cur := some 0 }

/-! ## Buffers for sockets -/

/-- An `iovec`: `len` bytes of the node `node` from `off` on. -/
structure Iovec where
  node : ℕ
  off : ℕ
  len : ℕ
  deriving DecidableEq, Repr

/-- The loop that collects `len` bytes from the node `idx` on. -/
def iovLoop : List Node → ℕ → ℕ → ℕ → Option (List Iovec)
  | [], _, _, _ => none
  | n :: ns, idx, npos, len =>
    let ncap := n.size - npos
    if len ≤ ncap then
      some [⟨idx, npos, len⟩]
    else
      (iovLoop ns (idx + 1) 0 (len - ncap)).map fun iovs => ⟨idx, npos, ncap⟩ :: iovs

def getReadBuffers (len : ℕ) : Op (List Iovec × ℕ) := do
  let ba ← get
  -- cut to what can be read
  let len := if ba.getReadSize < len then ba.getReadSize else len
  if len = 0 then
    return ([], 0)
  match iovLoop (ba.chain ba.cur) (ba.cur.getD 0) (ba.position % ba.baseSize) len with
  | none => throw .nullNode
  | some iovs => return (iovs, len)

/-- `getReadBuffers(buffers, len, position)`: the length is bounded by the unread part from
`m_position` on, whatever `position` is. -/
def getReadBuffersAt (len position : ℕ) : Op (List Iovec × ℕ) := do
  let ba ← get
  -- measured from `m_position`, not from the position asked for
  let len := if ba.getReadSize < len then ba.getReadSize else len
  if len = 0 then
    return ([], 0)
  let count := position / ba.baseSize
  match iovLoop (ba.root.drop count) count (position % ba.baseSize) len with
  | none => throw .nullNode
  | some iovs => return (iovs, len)

def getWriteBuffers (len : ℕ) : Op (List Iovec × ℕ) := do
  if len = 0 then
    return ([], 0)
  addCapacity len
  let ba ← get
  match iovLoop (ba.chain ba.cur) (ba.cur.getD 0) (ba.position % ba.baseSize) len with
  | none => throw .nullNode
  | some iovs => return (iovs, len)

/-! ## Files -/

/-- What the `i`-th `ifs.read` of `baseSize` bytes yields. The read after the last full chunk hits
the end of the file, so there is one chunk more than there are full ones. -/
def fileChunk (baseSize : ℕ) (file : List UInt8) (i : ℕ) : List UInt8 :=
  (file.drop (baseSize * i)).take baseSize

/-- `readFromFile` on a file with the given bytes; `none` is a file that does not open. -/
def readFromFile : Option (List UInt8) → Op Bool
  | none => return false
  | some file => do
    let ba ← get
    -- the last read finds the end of the file, and may be empty
    (List.range (file.length / ba.baseSize + 1)).forM fun i =>
      write (fileChunk ba.baseSize file i)
    return true

end ByteArray

end Sylar
