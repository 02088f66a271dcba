import Mathlib.Tactic

/-!
# libuv handles

What the program relies on of a `uv_handle_t`: it is initialised, may be made
active (reading, listening, a started timer), and `uv_close` moves it to closing.
Only a later turn of the loop moves it from closing to closed, and runs the close
callback.
-/

namespace Qsf

inductive Phase
  | raw       -- memory where no `uv_*_init` has run
  | init
  | closing
  | closed
  deriving DecidableEq, Repr

/-- A handle embedded in a C object. -/
structure UvHandle where
  phase : Phase
  active : Bool
  deriving DecidableEq, Repr

/-- Memory set to zero, not a handle yet. -/
def UvHandle.zero : UvHandle := ⟨.raw, false⟩

def uvInit : UvHandle := ⟨.init, false⟩

/-- `uv_is_closing`: true from `uv_close` on. -/
def uvIsClosing (h : UvHandle) : Bool := h.phase = .closing || h.phase = .closed

/-- `uv_read_start`, `uv_listen`, `uv_timer_start`. -/
def uvStart (h : UvHandle) : UvHandle := { h with active := true }

/-- `uv_read_stop`, `uv_timer_stop`. -/
def uvStop (h : UvHandle) : UvHandle := { h with active := false }

def uvClose (h : UvHandle) : UvHandle := { h with phase := .closing, active := false }

/-- `if (!uv_is_closing(h)) uv_close(h)`. -/
def uvCloseOnce (h : UvHandle) : UvHandle := if uvIsClosing h then h else uvClose h

/-- The closing phase of one loop turn, for one handle. -/
def uvTurn (h : UvHandle) : UvHandle := if h.phase = .closing then { h with phase := .closed } else h

/-- The result of one read of a stream: `nread` bytes, or an error code. -/
inductive ReadResult
  | data (bytes : List UInt8)
  | error (code : ℤ)

/-- The `nread` given to the read callback. -/
def ReadResult.nread : ReadResult → ℤ
  | .data bytes => bytes.length
  | .error code => code

def ReadResult.bytes : ReadResult → List UInt8
  | .data bytes => bytes
  | .error _ => []

end Qsf
