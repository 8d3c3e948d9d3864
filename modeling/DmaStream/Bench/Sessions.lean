import DmaStream.Bench.Basic
import DmaStream.Bench.Command
import DmaStream.Session.Claim
import DmaStream.Session.Setup

namespace DmaStream.BenchWork

/-- Start a session on a handle, which it takes over. -/
def startOn (name : String) (h : Nat) (cardIndex : Option Nat) (method : Method) (recorded : Bool)
    (config : Config) : BenchWork Report := do
  let transport : Transport := ⟨method, config.waitTimeout⟩
  match ← lift (Session.start (Machine.device h) config transport) with
  | .error e =>
    match cardIndex with
    | none => return .notStarted e none
    | some i => return .notStarted e (some (← card i))
  | .ok session =>
    let s : BenchSession := ⟨session, h, cardIndex, recorded, 0⟩
    let shown ← view s
    nameSession name s
    return .started shown

/-- Start a session on a fresh handle of a board. -/
def startOnCard (name : String) (i : Nat) (method : Method) (recorded : Bool) (config : Config) :
    BenchWork Report := do
  let (_, h) ← lift (Machine.openCard i)
  startOn name h (some i) method recorded config

/-- Start a session on a named handle. -/
def startOnDevice (name device : String) (h : Nat) (share : Bool) (method : Method)
    (recorded : Bool) (config : Config) : BenchWork Report := do
  if share then
    lift (Machine.own h)
  else
    modify fun b => { b with handles := b.handles.remove device }
  startOn name h none method recorded config

/-- What a recorded transport did in a step, if it was reached. -/
def transportView (s : BenchSession) (report : StepReport) (tornDown : Bool) :
    Option TransportView := do
  let live ← s.session.live
  let exchanged ← report.exchanged
  if s.recorded then
    match live.transport.method with
    | .polling => some ⟨exchanged.synced, none, none⟩
    | .overlapped =>
      some ⟨exchanged.synced, some exchanged.pending, if tornDown then some ∅ else none⟩
  else none

/-- One step of a session. -/
def step (name : String) (s : BenchSession) : BenchWork Report := do
  let (report, session) ← lift (s.session.step (Machine.device s.handle))
  let transport := transportView s report (!session.isOpen)
  let s := { s with session }
  updateSession name s
  return .stepped (← view s) report.result transport

/-- Where the next claim of a direction would be. -/
def cursor (s : Session) (d : Direction) : BenchWork (Option Nat) :=
  match s.stream d with
  | none => return none
  | some stream => do
    return some (← lift (Act.ofFaulty stream.channel.cursor))

def claimView (s : Session) (d : Direction) : BenchWork (Option ClaimView) :=
  match s.stream d with
  | none => return none
  | some stream => do
    let c := stream.channel
    return some ⟨c.hwCount, c.swCount, c.claimed, c.available, ← lift (Act.ofFaulty c.cursor)⟩

/-- Claim one slot and overwrite it. -/
def next (name : String) (s : BenchSession) (d : Direction) (edit : Overwrite) :
    BenchWork Report := do
  let before ← cursor s.session d
  let (slot, session) ← lift (s.session.claimSlot d edit.apply)
  updateSession name { s with session }
  return .claimed before slot (← claimView session d)

/-- Claim slots until there is none, at most `limit`; `edit` is told how many came before. -/
def claimUpTo (d : Direction) (edit : Nat → ByteArray → ByteArray) (s : Session) :
    (limit : Nat) → (count : Nat) → BenchWork (List ByteArray × Session)
  | 0, _ => return ([], s)
  | limit + 1, count => do
    match ← lift (s.claimSlot d (edit count)) with
    | (none, s) => return ([], s)
    | (some slot, s) =>
      let (rest, s) ← claimUpTo d edit s limit (count + 1)
      return (slot :: rest, s)

/-- As many slots as are ever claimed at once. -/
def claimLimit : Nat := 64

/-- Claim all slots there are, and overwrite each. -/
def nextAll (name : String) (s : BenchSession) (d : Direction) (edit : Overwrite) :
    BenchWork Report := do
  let (slots, session) ← claimUpTo d (fun _ => edit.apply) s.session claimLimit 0
  updateSession name { s with session }
  return .slots slots

/-- The contents of the slot with a number: its bytes count up in steps, after the number itself. -/
def numbered (q : Nat) (slot : ByteArray) : ByteArray :=
  let pattern : ByteArray := ⟨(Array.range slot.size).map fun i => UInt8.ofNat (31 * q + i)⟩
  let number := q % 65536
  Bytes.patch pattern 0 ⟨#[UInt8.ofNat number, UInt8.ofNat (number / 256)]⟩

/-- Bytes of each received slot that are kept. -/
def keptBytes : Nat := 4

/-- One round after its step: fill outbound slots, then take inbound ones, as many as there are
where no limit is set. -/
def exchangeSlots (s : BenchSession) (available : PerDirection Nat) (outMax inMax : Option Nat) :
    BenchWork (Round × BenchSession) := do
  let (filled, session) ←
    claimUpTo .outbound numbered s.session (outMax.getD (s.session.claimable .outbound)) s.sent
  let (received, session) ←
    claimUpTo .inbound (fun _ b => b) session (inMax.getD (session.claimable .inbound)) 0
  return (⟨available, filled.length, received.map fun b => Bytes.slice b 0 keptBytes⟩,
    { s with session, sent := s.sent + filled.length })

/-- Rounds until one fails. -/
def pumpRounds (outMax inMax : Option Nat) (s : BenchSession) :
    (rounds : Nat) → BenchWork (List (Except Error Round) × BenchSession)
  | 0 => return ([], s)
  | rounds + 1 => do
    let (report, session) ← lift (s.session.step (Machine.device s.handle))
    let s := { s with session }
    match report.result with
    | .error e => return ([.error e], s)
    | .ok available =>
      let (round, s) ← exchangeSlots s available outMax inMax
      let (rest, s) ← pumpRounds outMax inMax s rounds
      return (.ok round :: rest, s)

/-- Rounds of a step and of claims in both directions. -/
def pump (name : String) (s : BenchSession) (rounds : Nat) (outMax inMax : Option Nat) :
    BenchWork Report := do
  let (rounds, s) ← pumpRounds outMax inMax s rounds
  updateSession name s
  return .pumped rounds (← view s)

def sessionSlot (s : BenchSession) (d : Direction) (index : Nat) : BenchWork Report :=
  match s.session.stream d with
  | none => return .bytes none
  | some stream => do
    return .bytes (some (← lift (stream.ring.readSlot index)))

/-- What remains of the board of a session. -/
def cardOf (s : BenchSession) : BenchWork (Option Card) := do
  return (← view s).card

/-- End a session; its name is free then. -/
def cleanup (name : String) (s : BenchSession) : BenchWork Report := do
  let outcome ← lift (s.session.cleanup (Machine.device s.handle))
  modify fun b => { b with sessions := b.sessions.remove name }
  return .cleaned outcome (← cardOf s)

def dropNamedSession (name : String) (s : BenchSession) : BenchWork Report := do
  dropSession s
  modify fun b => { b with sessions := b.sessions.remove name }
  return .dropped (← cardOf s)

end DmaStream.BenchWork
