import DmaStream.Driver.Call
import DmaStream.Kernel.Request
import DmaStream.Kernel.Syscall
import DmaStream.Memory.Hex

namespace DmaStream

/-- A call and the bytes it took along. -/
inductive TraceEntry where
  | call (c : Call) (sent : ByteArray)
  | syscall (c : Syscall) (sent : ByteArray)

/-- Bytes of a buffer that are shown. -/
def shownBytes : Nat := 64

namespace Call

/-- The buffer whose bytes leave with a call. -/
def outgoing : Call → Option Span
  | write buf => some buf
  | submit .outbound buf => some buf
  | _ => none

/-- One line for a call. -/
def line (sent : ByteArray) : Call → String
  | requestLock wanted => s!"request_lock {wanted.toNat}"
  | releaseLock held => s!"release_lock {held.toNat}"
  | setLoopback enable => s!"set_loopback {enable}"
  | enableChannel d enable => s!"enable_channel {d.name} {enable}"
  | ringLayout => "ring_layout"
  | mapRing d g => s!"map_ring {d.name} {g.offset} {g.slotSize} {g.slotCount}"
  | pushSwCount d count => s!"push_sw_count {d.name} {count}"
  | read buf => s!"read {buf.len}"
  | write buf => s!"write {buf.len} {Bytes.toHex sent}"
  | waitReady interest timeout => s!"wait_ready {interest.toNat} {timeout}"
  | submit .inbound buf => s!"submit inbound {buf.len}"
  | submit .outbound buf => s!"submit outbound {buf.len} {Bytes.toHex sent}"
  | waitAny pending timeout => s!"wait_any {pending.toNat} {timeout}"
  | cancelAll => "cancel_all"
  | unmap d _ => s!"unmap {d.name}"
  | close => "close"

end Call

namespace Syscall

/-- The buffer whose bytes leave with a system call. -/
def outgoing : Syscall → Option Span
  | write buf => some buf
  | _ => none

/-- The control request of a system call on one engine. -/
def engineRequest : Direction → Request
  | .inbound => .writer
  | .outbound => .reader

/-- The control request that tells a software count. -/
def updateRequest : Direction → Request
  | .inbound => .writerUpdate
  | .outbound => .readerUpdate

/-- Mapped memory can be read and written, and is shared. -/
def protection : Nat := 3
def sharing : Nat := 1

/-- One line for a system call. -/
def line (sent : ByteArray) : Syscall → String
  | loopback enable => s!"{Request.loopback.name} {flag enable}"
  | engine d r => s!"{(engineRequest d).name} {flag r.enable} {r.hwCount} {r.swCount}"
  | layout => Request.layout.name
  | lock r =>
    s!"{Request.lock.name} {r.readerRequest} {r.writerRequest} {r.readerRelease} {r.writerRelease}"
  | update d swCount => s!"{(updateRequest d).name} {swCount}"
  | map len offset => s!"mmap {len} {protection} {sharing} {offset}"
  | unmap mapping => s!"munmap {mapping.len}"
  | poll events timeout => s!"poll {events} {timeout}"
  | read buf => s!"read {buf.len}"
  | write buf => s!"write {buf.len} {Bytes.toHex sent}"
  | close => "close"

end Syscall

namespace TraceEntry

def render : TraceEntry → String
  | call c sent => c.line sent
  | syscall c sent => c.line sent

end TraceEntry

end DmaStream
