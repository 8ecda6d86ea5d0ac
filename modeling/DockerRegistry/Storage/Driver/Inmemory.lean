import DockerRegistry.Digest

/-!
# The in-memory driver's file writer

`writer` of `registry/storage/driver/inmemory/driver.go`. Written bytes go to a
buffer, and reach the file only when `flush` appends the buffer at the file's end
(`WriteAt` at offset `len(f.data)`), which happens on `Close` and on `Commit`.
`Size` reports the length of the file's data, so bytes still in the buffer are
not counted.

The file's data is held by the driver, not by the writer; the operations here
take it and return it.
-/

namespace DockerRegistry.Storage.Driver.Inmemory

/-- The errors `writer` returns (`fmt.Errorf("already closed")` and the like). -/
inductive WriterError
  | alreadyClosed
  | alreadyCommitted
  | alreadyCancelled
  deriving DecidableEq, Repr

/-- `writer`: the buffered bytes and the three flags. -/
structure Writer where
  buffer : Bytes := []
  closed : Bool := false
  committed : Bool := false
  cancelled : Bool := false
  deriving DecidableEq, Repr

namespace Writer

/-- `Write`: refuse after close, commit or cancel, otherwise buffer `p`. -/
def write (w : Writer) (p : Bytes) : Except WriterError Writer :=
  if w.closed then .error .alreadyClosed
  else if w.committed then .error .alreadyCommitted
  else if w.cancelled then .error .alreadyCancelled
  else .ok { w with buffer := w.buffer ++ p }

/-- `Size`: `len(w.f.data)`, the flushed bytes only. -/
def size (_w : Writer) (data : Bytes) : ℕ := data.length

def flush (w : Writer) (data : Bytes) : Writer × Bytes :=
  ({ w with buffer := [] }, data ++ w.buffer)

/-- `Close`: refuse a second close, otherwise mark closed and flush. -/
def close (w : Writer) (data : Bytes) : Except WriterError (Writer × Bytes) :=
  if w.closed then .error .alreadyClosed
  else .ok (flush { w with closed := true } data)

/-- `Commit`: refuse after close, commit or cancel, otherwise mark committed and
flush. -/
def commit (w : Writer) (data : Bytes) : Except WriterError (Writer × Bytes) :=
  if w.closed then .error .alreadyClosed
  else if w.committed then .error .alreadyCommitted
  else if w.cancelled then .error .alreadyCancelled
  else .ok (flush { w with committed := true } data)

def IsOpen (w : Writer) : Prop := w.closed = false ∧ w.committed = false ∧ w.cancelled = false

theorem write_of_isOpen {w : Writer} (h : w.IsOpen) (p : Bytes) :
    w.write p = .ok { w with buffer := w.buffer ++ p } := by
  obtain ⟨h₁, h₂, h₃⟩ := h
  simp [write, h₁, h₂, h₃]

end Writer

end DockerRegistry.Storage.Driver.Inmemory
