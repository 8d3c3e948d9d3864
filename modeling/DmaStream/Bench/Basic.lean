import DmaStream.Bench.Machine
import DmaStream.Bench.Names
import DmaStream.Bench.Report
import DmaStream.Lock

/-!
A test bench: named objects on one machine. An object whose name is given to another is disposed of,
like one that is dropped, after the answer about the new one is made.
-/
namespace DmaStream

/-- A session at the bench, with what was asked for at its start. -/
structure BenchSession where
  session : Session
  handle : Nat
  /-- The board it was started on, where that was asked for. -/
  card : Option Nat
  recorded : Bool
  /-- Slots sent by pumping so far. -/
  sent : Nat

/-- A lock keeps its handle open. -/
structure BenchLock where
  handle : Nat
  held : Directions

/-- A ring at the bench, apart from any session. -/
structure BenchRing where
  ring : Ring
  /-- What the ring was mapped from, and for which direction. -/
  source : Option (Target × Direction)

/-- The objects of a bench by kind and name. -/
structure Bench where
  cards : Names Nat
  handles : Names Nat
  scripted : Names Nat
  sessions : Names BenchSession
  locks : Names BenchLock
  buffers : Names Span
  rings : Names BenchRing

namespace Bench

def empty : Bench := ⟨[], [], [], [], [], [], []⟩

end Bench

/-- Work at a bench. -/
abbrev BenchWork : Type → Type := StateT Bench (Act Machine)

namespace BenchWork

/-- Work that does not name anything. -/
def lift {α : Type} (act : Act Machine α) : BenchWork α := StateT.lift act

/-- A call through a handle of the machine. -/
def ask (h : Nat) (c : Call) : BenchWork (Reply c) :=
  lift ((Machine.device h).answer c)

def closeHandle (h : Nat) : BenchWork Unit :=
  lift (Machine.device h).close

def card (i : Nat) : BenchWork Card := do
  return (← lift get).machine.card i

def view (s : BenchSession) : BenchWork SessionView := do
  match s.card with
  | none => return ⟨s.session, none⟩
  | some i => return ⟨s.session, some (← card i)⟩

def dropSession (s : BenchSession) : BenchWork Unit :=
  lift (s.session.drop (Machine.device s.handle))

def dropLock (l : BenchLock) : BenchWork Unit := do
  lift (Lock.drop (Machine.device l.handle) l.held)
  closeHandle l.handle

/-- Rings mapped from nothing were allocated here. -/
def dropRing (r : BenchRing) : BenchWork Unit :=
  match r.source with
  | some (target, d) => lift (r.ring.discard (Machine.targetDevice target) d)
  | none => lift (Act.free r.ring.region)

/-- Dispose of what a name referred to. -/
def replaced {α : Type} (old : Option α) (dispose : α → BenchWork Unit) : BenchWork Unit :=
  match old with
  | some a => dispose a
  | none => pure ()

def nameHandle (name : String) (h : Nat) : BenchWork Unit := do
  let old := (← get).handles.find? name
  modify fun b => { b with handles := b.handles.insert name h }
  replaced old closeHandle

def nameSession (name : String) (s : BenchSession) : BenchWork Unit := do
  let old := (← get).sessions.find? name
  modify fun b => { b with sessions := b.sessions.insert name s }
  replaced old dropSession

def nameLock (name : String) (l : BenchLock) : BenchWork Unit := do
  let old := (← get).locks.find? name
  modify fun b => { b with locks := b.locks.insert name l }
  replaced old dropLock

def nameRing (name : String) (r : BenchRing) : BenchWork Unit := do
  let old := (← get).rings.find? name
  modify fun b => { b with rings := b.rings.insert name r }
  replaced old dropRing

/-- Keep what became of a session under its name. -/
def updateSession (name : String) (s : BenchSession) : BenchWork Unit :=
  modify fun b => { b with sessions := b.sessions.insert name s }

end BenchWork

end DmaStream
