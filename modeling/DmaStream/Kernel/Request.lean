namespace DmaStream

/-- The least multiple of `a` that is not below `n`. -/
def roundUp (n a : Nat) : Nat := (n + a - 1) / a * a

/-- Bytes of a record whose fields have these sizes; each field is aligned to its own size. -/
def recordSize (fields : List Nat) : Nat :=
  roundUp (fields.foldl (fun offset size => roundUp offset size + size) 0) (fields.foldl max 1)

/-- The control requests that the driver knows. -/
inductive Request where
  | loopback
  /-- Control of the board's writer, which is the inbound engine. -/
  | writer
  /-- Control of the board's reader, which is the outbound engine. -/
  | reader
  | layout
  | lock
  | writerUpdate
  | readerUpdate
  deriving DecidableEq

namespace Request

/-- Every request once. -/
def all : List Request := [loopback, writer, reader, layout, lock, writerUpdate, readerUpdate]

/-- The name of a request in a trace. -/
def name : Request → String
  | loopback => "DMA"
  | writer => "DMA_WRITER"
  | reader => "DMA_READER"
  | layout => "MMAP_DMA_INFO"
  | lock => "LOCK"
  | writerUpdate => "MMAP_DMA_WRITER_UPDATE"
  | readerUpdate => "MMAP_DMA_READER_UPDATE"

/-- The number of a request among those of the driver. -/
def number : Request → Nat
  | loopback => 20
  | writer => 21
  | reader => 22
  | layout => 24
  | lock => 25
  | writerUpdate => 26
  | readerUpdate => 27

/-- Sizes of the fields of the record a request carries. -/
def fields : Request → List Nat
  | loopback => [1]
  | writer => [1, 8, 8]
  | reader => [1, 8, 8]
  | layout => List.replicate 6 8
  | lock => List.replicate 6 1
  | writerUpdate => [8]
  | readerUpdate => [8]

/-- Bytes of the record of a request. -/
def size (r : Request) : Nat := recordSize r.fields

/-- Which way the record travels: 1 into the driver, 2 out of it, 3 both. -/
def access : Request → Nat
  | loopback => 1
  | writer => 3
  | reader => 3
  | layout => 2
  | lock => 3
  | writerUpdate => 1
  | readerUpdate => 1

/-- The code of a request on Linux: access, record size, the letter `S`, number. -/
def linuxCode (r : Request) : Nat :=
  r.access <<< 30 + r.size <<< 16 + 'S'.toNat <<< 8 + r.number

/-- The code of a request on Windows: unknown device type, any access, buffered. -/
def windowsCode (r : Request) : Nat :=
  0x22 <<< 16 + r.number <<< 2

end Request

end DmaStream
