import DmaStream.Bench.Basic
import DmaStream.Bench.Command

namespace DmaStream.BenchWork

/-- A private ring of its own. -/
def allocateRing (name : String) (d : Direction) (slotSize slotCount : Nat) : BenchWork Report := do
  match ← lift (Ring.allocate d slotSize slotCount) with
  | .error e => return .failed e
  | .ok ring =>
    nameRing name ⟨ring, none⟩
    return .ring ring

/-- A ring on a new region, as if the region were mapped. -/
def shareRing (name : String) (len slotSize slotCount : Nat) : BenchWork Report := do
  let region ← lift (Act.alloc len)
  match ← lift (Act.ofFaulty (Ring.ofMapping slotSize slotCount ⟨region, len⟩)) with
  | .error e => return .failed e
  | .ok ring =>
    nameRing name ⟨ring, none⟩
    return .shared ring (len == 0)

def slotOffset (r : Ring) (index : Nat) : BenchWork Report := do
  return .number (← lift (Act.ofFaulty (r.slotOffset index)))

def slot (r : Ring) (index : Nat) : BenchWork Report := do
  return .bytes (some (← lift (r.readSlot index)))

/-- Overwrite a slot and show what it holds then. -/
def editSlot (r : Ring) (index : Nat) (edit : Overwrite) : BenchWork Report := do
  let old ← lift (r.readSlot index)
  lift (r.writeSlot index (edit.apply old))
  slot r index

/-- Overwrite the first slots as one buffer. -/
def editBatch (r : Ring) (slots : Nat) (edit : Overwrite) : BenchWork Report := do
  let old ← lift (r.readBatch slots)
  let data := edit.apply old
  lift (r.writeBatch slots data)
  return .batch old.size data

end DmaStream.BenchWork
