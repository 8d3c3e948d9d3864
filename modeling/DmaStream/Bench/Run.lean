import DmaStream.Bench.Describe
import DmaStream.Bench.Devices
import DmaStream.Bench.Rings
import DmaStream.Bench.Sessions
import DmaStream.Session.Open

namespace DmaStream

namespace BenchWork

/-- Use the object of a name, if there is one. -/
def withNamed {α : Type} (names : Bench → Names α) (name : String) (use : α → BenchWork Report) :
    BenchWork Report := do
  match (names (← get)).find? name with
  | none => return .unknown name
  | some a => use a

def withHandle := withNamed (·.handles)
def withSession := withNamed (·.sessions)
def withRing := withNamed (·.rings)

def start (name : String) (site : Site) (method : Method) (recorded : Bool) (config : Config) :
    BenchWork Report :=
  match site with
  | .card c => withNamed (·.cards) c fun i => startOnCard name i method recorded config
  | .device dev share =>
    withHandle dev fun h => startOnDevice name dev h share method recorded config

/-- The textual description of an object. -/
def describe (kind : Kind) (name : String) : BenchWork Report :=
  match kind with
  | .card => withNamed (·.cards) name fun i => return .text (Describe.card (← card i))
  | .session => withSession name fun s => return .text (Describe.session s.session)
  | .lock => withNamed (·.locks) name fun l => return .text (Describe.lock l.held)
  | .ring => withRing name fun r => return .text (Describe.ring r.ring)
  | .device =>
    withHandle name fun h => do
      match (← lift get).machine.target h with
      | .card _ id => return .text (Describe.handle id)
      | _ => return .unknown name

/-- What a command comes to. -/
def obey : Command → BenchWork Report
  | .addCard name shape => addCard name shape
  | .openCard c name => withNamed (·.cards) c fun i => openCard i name
  | .addScripted name script layout bare => addScripted name (.create script layout bare)
  | .openNode name path script => openDeviceNode name path script
  | .start name site method recorded config => start name site method recorded config
  | .acquire name dev wanted => withHandle dev fun h => acquire name h wanted
  | .addBuffer name len edit => addBuffer name len edit
  | .allocateRing name d slotSize slotCount => allocateRing name d slotSize slotCount
  | .shareRing name len slotSize slotCount => shareRing name len slotSize slotCount
  | .close dev =>
    withHandle dev fun h => do
      modify fun b => { b with handles := b.handles.remove dev }
      closeHandle h
      return .done
  | .release name =>
    withNamed (·.locks) name fun l => do
      modify fun b => { b with locks := b.locks.remove name }
      release l
  | .dropLock name =>
    withNamed (·.locks) name fun l => do
      modify fun b => { b with locks := b.locks.remove name }
      dropLock l
      return .done
  | .dropRing name =>
    withRing name fun r => do
      modify fun b => { b with rings := b.rings.remove name }
      dropRing r
      return .done
  | .cleanup name => withSession name (cleanup name)
  | .dropSession name => withSession name (dropNamedSession name)
  | .showCard c => withNamed (·.cards) c fun i => return .card (← card i)
  | .inject c mishap =>
    withNamed (·.cards) c fun i => do
      lift (Machine.onCard i (Card.inject mishap))
      return .done
  | .extendScript dev script =>
    withNamed (·.scripted) dev fun i => do
      lift (Machine.modifyScripted i fun s => { s with script := s.script.append script })
      return .done
  | .extendKernel script => do
    lift (Machine.extendKernel script)
    return .done
  | .setCounts dev d counts =>
    withNamed (·.scripted) dev fun i => do
      lift (Machine.modifyScripted i (·.setCounts d counts))
      return .done
  | .poke dev d offset edit => withNamed (·.scripted) dev fun i => poke i d offset edit
  | .peek dev d offset => withNamed (·.scripted) dev fun i => peek i d offset
  | .call dev c => withHandle dev fun h => return .replied c (← ask h c)
  | .mapRing name dev d g => withHandle dev fun h => mapRing name h d g
  | .read dev len preset => withHandle dev fun h => read h len preset
  | .write dev len data => withHandle dev fun h => write h len data
  | .submit dev d buffer =>
    withHandle dev fun h => withNamed (·.buffers) buffer fun buf => do
      let c := Call.submit d buf
      return .replied c (← ask h c)
  | .showBuffer name =>
    withNamed (·.buffers) name fun buf => do
      return .bytes (some ((← lift Act.memory).read buf.region 0 buf.len))
  | .showLock name => withNamed (·.locks) name fun l => return .directions l.held
  | .step name => withSession name (step name)
  | .showSession name => withSession name fun s => return .started (← view s)
  | .next name d edit => withSession name fun s => next name s d edit
  | .nextAll name d edit => withSession name fun s => nextAll name s d edit
  | .pump name rounds outMax inMax => withSession name fun s => pump name s rounds outMax inMax
  | .sessionSlot name d index => withSession name fun s => sessionSlot s d index
  | .showRing name => withRing name fun r => return .ring r.ring
  | .slotOffset name index => withRing name fun r => slotOffset r.ring index
  | .slot name index => withRing name fun r => slot r.ring index
  | .editSlot name index edit => withRing name fun r => editSlot r.ring index edit
  | .editBatch name slots edit => withRing name fun r => editBatch r.ring slots edit
  | .describe kind name => describe kind name

/-- The answer to a step shows the start of bytes where no more is wanted. -/
def answer (s : BenchStep) : BenchWork Report := do
  let report ← obey s.command
  return match s.shown with
    | some limit => report.cut limit
    | none => report

end BenchWork

/-- The answer to one step, and what was to be noticed meanwhile. -/
structure BenchAnswer where
  result : Except Fault Report
  trace : List TraceEntry
  log : List LogEvent

namespace Bench

/-- A world with nothing in it, whose allocator refuses what no machine has. -/
def emptyWorld : World Machine :=
  ⟨.empty, { Memory.empty with grants := fun _ len => decide (len < 1 <<< 60) }, #[]⟩

/-- Take what was traced and logged out of a world. -/
def drain (w : World Machine) : List TraceEntry × List LogEvent × World Machine :=
  (w.machine.trace.toList, w.log.toList,
    { w with machine := { w.machine with trace := #[] }, log := #[] })

/-- The answers to some steps. A step that stops without an answer ends the run. -/
def runFrom (bench : Bench) (world : World Machine) : List BenchStep → List BenchAnswer
  | [] => []
  | s :: rest =>
    match BenchWork.answer s bench world with
    | .ok (report, bench) world =>
      let (trace, log, world) := drain world
      ⟨.ok report, trace, log⟩ :: runFrom bench world rest
    | .error fault world =>
      let (trace, log, _) := drain world
      [⟨.error fault, trace, log⟩]

/-- The answers to some steps on an empty bench. -/
def run (steps : List BenchStep) : List BenchAnswer :=
  runFrom .empty emptyWorld steps

/-- Open a path alone, on an empty bench. -/
def openPath (path : String) : Except Fault (Except Error Unit) :=
  (Kernel.openNode path).eval emptyWorld

/-- Open a path for a session with default settings, on an empty bench. -/
def initPath (path : String) (zeroCopy : Bool) : Except Fault (Except Error Session) :=
  (Session.init Machine.tracedKernel path zeroCopy).eval emptyWorld

end Bench

end DmaStream
