import Mathlib.Logic.Function.Basic
import Sylar.Foundation.Transition

/-!
# Descriptors and the hooks on their flags

The hooks keep an `FdCtx` for the sockets they have given out. `FdCtx::init` makes the socket
non-blocking in the kernel; what the user asked for is kept in the context, and the hooks on
`fcntl` and `ioctl` translate between the two.

The calls run one at a time. A descriptor has its own status flags, and the descriptors that are
known to the hooks are opened and closed through them. An index out of the bounds of the table
leads nowhere.

## Main definitions

* `File`, `Files`: a descriptor in the kernel, and the system calls on its flags
* `FdCtx`, `Process`: what the hooks keep of a descriptor, and the table of `FdManager`
* `FdCtx.init`, `Process.get`, `Process.del`: the members of `FdCtx` and `FdManager`
* `fcntlSetfl`, `fcntlGetfl`, `ioctlFionbio`, `doIo`: the hooks
* `Action`, `machine`: the calls of a process
-/

namespace Sylar

open Foundation

namespace Fd

/-! ## Flags -/

def O_NONBLOCK : BitVec 32 := 0x800#32

/-- The status flags that `F_SETFL` changes. -/
def setflMask : BitVec 32 := 0x46C00#32

/-- `flags & O_NONBLOCK`, as a condition. -/
def nonblock (flags : BitVec 32) : Bool := flags &&& O_NONBLOCK ≠ 0

variable {x y : BitVec 32}

theorem nonblock_eq (x : BitVec 32) : nonblock x = x.getLsbD 11 := by
  have hbit : O_NONBLOCK = BitVec.twoPow 32 11 := by decide
  have hne : BitVec.twoPow 32 11 ≠ 0#32 := by decide
  rw [nonblock, hbit, BitVec.and_twoPow]
  cases x.getLsbD 11
  · simp
  · simpa using hne

@[simp] theorem nonblock_or : nonblock (x ||| O_NONBLOCK) = true := by
  rw [nonblock_eq, BitVec.getLsbD_or]
  simp [O_NONBLOCK]

@[simp] theorem nonblock_and : nonblock (x &&& ~~~O_NONBLOCK) = false := by
  rw [nonblock_eq, BitVec.getLsbD_and]
  simp [O_NONBLOCK]

/-- Of the two words, `F_SETFL` takes the flag from its argument. -/
@[simp] theorem nonblock_mask :
    nonblock (x &&& ~~~setflMask ||| y &&& setflMask) = nonblock y := by
  rw [nonblock_eq, nonblock_eq, BitVec.getLsbD_or, BitVec.getLsbD_and, BitVec.getLsbD_and]
  simp [setflMask]

/-! ## The kernel -/

/-- A descriptor in the kernel: whether `fstat` says it is a socket, and its status flags. -/
structure File where
  isSocket : Bool
  flags : BitVec 32
  deriving DecidableEq

abbrev Files := Int → Option File

/-- `fcntl_f(fd, F_GETFL)`. -/
def Files.getfl (files : Files) (fd : Int) : BitVec 32 := ((files fd).map File.flags).getD (-1)

/-- The flags of an open descriptor become `f` of what they are. -/
def Files.modify (files : Files) (fd : Int) (f : BitVec 32 → BitVec 32) : Files :=
  Function.update files fd ((files fd).map fun file => { file with flags := f file.flags })

/-- `fcntl_f(fd, F_SETFL, arg)`. -/
def Files.setfl (files : Files) (fd : Int) (arg : BitVec 32) : Files :=
  files.modify fd fun flags => flags &&& ~~~setflMask ||| arg &&& setflMask

/-- `ioctl_f(fd, FIONBIO, &v)`. -/
def Files.fionbio (files : Files) (fd : Int) (v : BitVec 32) : Files :=
  files.modify fd fun flags => if v = 0 then flags &&& ~~~O_NONBLOCK else flags ||| O_NONBLOCK

/-! ## What the hooks keep -/

structure FdCtx where
  isInit : Bool := false
  isSocket : Bool := false
  sysNonblock : Bool := false
  userNonblock : Bool := false
  isClosed : Bool := false
  fd : Int
  recvTimeout : UInt64 := -1
  sendTimeout : UInt64 := -1
  deriving DecidableEq

def FdCtx.init (ctx : FdCtx) (files : Files) : FdCtx × Files :=
  if ctx.isInit then (ctx, files)
  else
    let ctx := { ctx with recvTimeout := -1, sendTimeout := -1 }
    -- `fstat` fails when the descriptor is not open
    let ctx := match files ctx.fd with
      | none => { ctx with isInit := false, isSocket := false }
      | some file => { ctx with isInit := true, isSocket := file.isSocket }
    -- a socket is made nonblocking; the framework waits for it
    let files :=
      if ctx.isSocket ∧ nonblock (files.getfl ctx.fd) = false then
        files.setfl ctx.fd (files.getfl ctx.fd ||| O_NONBLOCK)
      else files
    ({ ctx with sysNonblock := ctx.isSocket, userNonblock := false, isClosed := false }, files)

/-- The descriptors of the kernel, and `m_datas` of the `FdManager`. -/
structure Process where
  files : Files := fun _ => none
  datas : List (Option FdCtx) := List.replicate 64 none

namespace Process

/-- `FdManager::get`. -/
def get (s : Process) (fd : Int) (auto_create : Bool) : Option (Option FdCtx × Process) :=
  if fd = -1 then some (none, s)
  else if s.datas.length ≤ fd ∧ auto_create = false then some (none, s)
  -- below -1 the vector is indexed out of range
  else if fd < 0 then none
  else
    match s.datas.getD fd.toNat none with
    | some ctx => some (some ctx, s)
    | none =>
      if auto_create = false then some (none, s)
      else
        let r := FdCtx.init { fd := fd } s.files
        -- `m_datas.resize(fd * 1.5)`
        let datas := if s.datas.length ≤ fd then
            (s.datas ++ List.replicate (fd.toNat * 3 / 2) none).take (fd.toNat * 3 / 2)
          else s.datas
        if fd.toNat < datas.length then
          some (some r.1, { files := r.2, datas := datas.set fd.toNat (some r.1) })
        else none

/-- `FdManager::del`. -/
def del (s : Process) (fd : Int) : Option Process :=
  if s.datas.length ≤ fd then some s
  else if fd < 0 then none
  else some { s with datas := s.datas.set fd.toNat none }

/-- A member of the context of a descriptor is changed through a pointer to it. -/
def setCtx (s : Process) (ctx : FdCtx) : Process :=
  { s with datas := s.datas.set ctx.fd.toNat (some ctx) }

/-- The context under which a hook treats a call as one on a socket. -/
def socketCtx (ctx : Option FdCtx) : Option FdCtx := ctx.filter fun c => !c.isClosed && c.isSocket

/-! ## The hooks -/

/-- `fcntl(fd, F_SETFL, arg)`. -/
def fcntlSetfl (s : Process) (fd : Int) (arg : BitVec 32) : Option Process :=
  (s.get fd false).map fun (ctx, s) =>
    match socketCtx ctx with
    -- no context, a closed one, or not a socket: what the caller asks is passed on
    | none => { s with files := s.files.setfl fd arg }
    | some ctx =>
      -- what the caller asks is remembered, and the kernel keeps what the framework wants
      let s := s.setCtx { ctx with userNonblock := nonblock arg }
      let arg := if ctx.sysNonblock then arg ||| O_NONBLOCK else arg &&& ~~~O_NONBLOCK
      { s with files := s.files.setfl fd arg }

/-- `fcntl(fd, F_GETFL)`. -/
def fcntlGetfl (s : Process) (fd : Int) : Option (BitVec 32) :=
  let arg := s.files.getfl fd
  (s.get fd false).map fun (ctx, _) =>
    match socketCtx ctx with
    | none => arg
    | some ctx => if ctx.userNonblock then arg ||| O_NONBLOCK else arg &&& ~~~O_NONBLOCK

/-- `ioctl(d, FIONBIO, &v)`. -/
def ioctlFionbio (s : Process) (d : Int) (v : BitVec 32) : Option Process :=
  let user_nonblock := decide (v ≠ 0)
  (s.get d false).map fun (ctx, s) =>
    match socketCtx ctx with
    | none => { s with files := s.files.fionbio d v }
    | some ctx =>
      let s := s.setCtx { ctx with userNonblock := user_nonblock }
      -- unlike `fcntl`, the value of the caller reaches the kernel
      { s with files := s.files.fionbio d v }

/-- `socket`, or `accept` when it has a connection: the kernel gives out a descriptor. -/
def socket (s : Process) (fd : Int) (flags : BitVec 32) : Option Process :=
  if 0 ≤ fd ∧ s.files fd = none then
    (get { s with files := Function.update s.files fd (some ⟨true, flags⟩) } fd true).map (·.2)
  else none

/-- A descriptor that no hook is told about. -/
def openFile (s : Process) (fd : Int) (file : File) : Option Process :=
  if 0 ≤ fd ∧ s.files fd = none then
    some { s with files := Function.update s.files fd (some file) }
  else none

/-- `close`. -/
def close (s : Process) (fd : Int) : Option Process :=
  (s.get fd false).bind fun (ctx, s) =>
    (if ctx.isSome then s.del fd else some s).map fun s =>
      { s with files := Function.update s.files fd none }

/-- What `do_io` does with a call: it passes it on, refuses it, or runs the function itself. -/
inductive Mode
  | forwarded
  | badFd
  | hooked
  deriving DecidableEq, Repr

def doIo (s : Process) (fd : Int) : Option Mode :=
  (s.get fd false).map fun (ctx, _) =>
    match ctx with
    | none => .forwarded
    | some ctx =>
      if ctx.isClosed then .badFd
      else if !ctx.isSocket || ctx.userNonblock then .forwarded
      else .hooked

/-- The function that `do_io` runs blocks the thread. -/
def MayBlock (s : Process) (fd : Int) : Prop :=
  s.doIo fd = some .hooked ∧ nonblock (s.files.getfl fd) = false

/-- What `m_datas` has for a descriptor. -/
def ctx (s : Process) (fd : Int) : Option FdCtx :=
  if 0 ≤ fd then s.datas.getD fd.toNat none else none

end Process

/-! ## Runs -/

inductive Action
  | socket (fd : Int) (flags : BitVec 32)
  | openFile (fd : Int) (file : File)
  | close (fd : Int)
  | setfl (fd : Int) (arg : BitVec 32)
  | getfl (fd : Int)
  | fionbio (fd : Int) (v : BitVec 32)
  deriving DecidableEq

def machine : Machine Process Action where
  step s
    | .socket fd flags => s.socket fd flags
    | .openFile fd file => s.openFile fd file
    | .close fd => s.close fd
    | .setfl fd arg => s.fcntlSetfl fd arg
    | .getfl fd => (s.fcntlGetfl fd).map fun _ => s
    | .fionbio fd v => s.ioctlFionbio fd v

end Fd

end Sylar
