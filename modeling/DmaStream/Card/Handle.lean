import DmaStream.Card.Transfer

namespace DmaStream.Card

/-- Change the board and nothing else. -/
def onCard (f : Card → Card) : Act Card Unit :=
  modify fun w => { w with machine := f w.machine }

/-- Open a new handle; the answer is its id. -/
def openHandle : Act Card Nat := do
  onCard fun c => { c with handles := c.handles.push ⟨true, .both none⟩ }
  let id := (← get).machine.handles.size
  Act.note (.handleOpened id)
  return id

/-- A mishap is queued behind those that are still to come. -/
def inject (mishap : Mishap) : Act Card Unit := do
  Act.note (.mishapInjected mishap)
  onCard fun c => { c with mishaps := c.mishaps ++ [mishap] }

/-- Give the wanted engines that are free to a handle. -/
def grantLocks (id : Nat) (wanted : Directions) (c : Card) : Directions × Card :=
  let takes (d : Direction) : Bool := wanted.has d && (c.engines.get d).grantable id
  ((Direction.all.filter takes).foldl Directions.insert ∅,
    { c with
      engines := .ofFn fun d =>
        let e := c.engines.get d
        if takes d then { e with owner := some id } else e })

/-- Free the engines of a set that a handle holds. -/
def freeLocks (id : Nat) (held : Directions) (c : Card) : Card :=
  { c with
    engines := .ofFn fun d =>
      let e := c.engines.get d
      if held.has d && e.owner == some id then { e with owner := none } else e }

/-- A handle ceases to exist, and with it the locks it holds. -/
def closeHandle (id : Nat) (c : Card) : Card :=
  { c with
    engines := c.engines.map fun e =>
      if e.owner == some id then { e with owner := none, enabled := false } else e
    handles := c.handles.modify (id - 1) ({ · with isOpen := false }) }

/-- An exchange of counters fails if the board is to misbehave. -/
def syncMishap (d : Direction) : Act Card (Except Error Unit) := do
  match ← strike (· == .syncFailure d) with
  | some _ => return .error (.io (.reported s!"injected {d.name} sync failure"))
  | none => return .ok ()

/-- Report the counters of an engine; a rollback takes one slot off the hardware count. -/
def reportCounts (d : Direction) : Act Card Counts := do
  let counts := (← get).machine.counts d
  match ← strike (· == .counterRollback d) with
  | some _ => return { counts with hwCount := counts.hwCount - 1 }
  | none => return counts

/-- Switch an engine. The loopback path is emptied when an engine starts. -/
def switchEngine (d : Direction) (enable : Bool) (c : Card) : Card :=
  let e := c.engines.get d
  { c.setEngine d (e.switch enable) with fifo := if enable && !e.enabled then [] else c.fifo }

/-- Switch an engine and report its counters. Turning it on lets time go by, even if it ran
before. -/
def enableChannel (d : Direction) (enable : Bool) : Act Card (Except Error Counts) := do
  if let .error e ← syncMishap d then
    return .error e
  onCard (switchEngine d enable)
  if enable then
    tick
  return .ok (← reportCounts d)

/-- Both rings have the shape of the board; the inbound one lies first. -/
def layout (c : Card) : Layout :=
  ⟨⟨0, c.shape.slotSize, c.shape.slotCount⟩, ⟨c.shape.ringLen, c.shape.slotSize, c.shape.slotCount⟩⟩

/-- A mapping is the whole ring, whatever smaller part of it was asked for. -/
def mapRing (c : Card) (d : Direction) (g : Geometry) : Except Error Mapping :=
  if c.shape.ringLen < g.len then .error (.mapFailed (.exceedsRing d c.shape.ringLen g.len))
  else .ok ⟨c.rings.get d, c.shape.ringLen⟩

/-- Take a software count in as it is; the driver does not check it. -/
def pushSwCount (d : Direction) (count : Nat) : Act Card (Except Error Unit) := do
  if let .error e ← syncMishap d then
    return .error e
  onCard fun c => c.setEngine d { c.engines.get d with swCount := count }
  tick
  return .ok ()

/-- A transfer that cannot move anything yet stays in flight. -/
def submit (id : Nat) (d : Direction) (buf : Span) : Act Card (Except Error Submission) := do
  if (← strike (· == .submitFailure d)).isSome then
    return .error (.io (.reported s!"injected {d.name} submission failure"))
  if (((← get).machine.inFlight id).get d).isSome then
    return .error (.violation d .alreadyInFlight)
  let moved ← transfer d buf
  if 0 < moved then
    return .ok (.completed moved)
  onCard (·.setInFlight id d (some buf))
  return .ok .pending

/-- The first of some transfers in flight that can move something. -/
def finishAny (id : Nat) : List Direction → Act Card (Option (Direction × Nat))
  | [] => return none
  | d :: rest => do
    match ((← get).machine.inFlight id).get d with
    | none => finishAny id rest
    | some buf =>
      let moved ← transfer d buf
      if 0 < moved then
        onCard (·.setInFlight id d none)
        return some (d, moved)
      finishAny id rest

/-- Forget the transfers of a handle that are in flight. -/
def cancelTransfers (id : Nat) : Act Card Unit :=
  Direction.all.forM fun d => do
    if (((← get).machine.inFlight id).get d).isSome then
      onCard (·.setInFlight id d none)
      Act.note (.transferCancelled d)

/-- The driver's answer to a call through one handle. A wait is one look at the board, whatever its
timeout: `Device.persist` looks again while there is time. -/
def answer (id : Nat) : (call : Call) → Act Card (Reply call)
  | .requestLock wanted =>
    modifyGet fun w =>
      let (granted, card) := grantLocks id wanted w.machine
      (.ok granted, { w with machine := card })
  | .releaseLock held => do
    onCard (freeLocks id held)
    return .ok ()
  | .setLoopback enable => do
    onCard ({ · with loopback := enable })
    return .ok ()
  | .enableChannel d enable => enableChannel d enable
  | .ringLayout => return .ok (← get).machine.layout
  | .mapRing d g => return (← get).machine.mapRing d g
  | .pushSwCount d count => pushSwCount d count
  | .read buf => return .ok (← transfer .inbound buf)
  | .write buf => return .ok (← transfer .outbound buf)
  | .waitReady interest _ => do
    tick
    return .ok ((← get).machine.ready interest)
  | .submit d buf => submit id d buf
  | .waitAny pending _ => return .ok (← finishAny id pending.toList)
  | .cancelAll => cancelTransfers id
  | .unmap _ _ => return ()
  | .close => do
    onCard (closeHandle id)
    Act.note (.handleClosed id)

/-- A handle of the board. Each transfer in flight is reported once. -/
def device (id : Nat) : Device Card where
  answer := answer id
  backlog _ := Direction.all.length

end DmaStream.Card
