import Mathlib.Data.Nat.Notation
import Mathlib.Logic.Function.Basic

/-!
# Filters, sources, sinks and pumps (`lib/ltn12.lua`)

A closure is a function of its upvalues, which it returns changed. `fancy` sources and sinks, which
replace themselves, are left out.
-/

set_option autoImplicit false

namespace Qsf

/-- A call of a closure; it may raise an error, or never return (`none`). -/
abbrev LuaRun := ExceptT String Option

/-- A chunk; nil is `none`. -/
abbrev Chunk := Option (List UInt8)

abbrev Filter (γ : Type) := γ → Chunk → LuaRun (Chunk × γ)

/-- A source returns a chunk, or nil and perhaps an error message. -/
abbrev Source (α : Type) := α → LuaRun ((Chunk × Option String) × α)

/-- A sink gets a chunk, or nil and perhaps an error message; it returns 1, or nil and perhaps an
error message. -/
abbrev Sink (β : Type) := β → Chunk → Option String → LuaRun ((Bool × Option String) × β)

variable {α β γ δ σ : Type}

/-! ## Filters -/

/-- `while true do ... end`: each round ends the loop with a result, or goes on. `ret` is any result. -/
def luaLoop {α β : Type} (ret : α → β) (round : α → LuaRun (α ⊕ β)) (a : α) : LuaRun β :=
  have : Nonempty β := ⟨ret a⟩
  repeatM round a

theorem luaLoop_eq {α β : Type} (ret : α → β) (round : α → LuaRun (α ⊕ β)) (a : α) :
    luaLoop ret round a = round a >>= fun
      | .inl a => luaLoop ret round a
      | .inr b => pure b :=
  have : Nonempty β := ⟨ret a⟩
  repeatM_eq_of_monadTail a

/-- `filter.cycle`. -/
def filterCycle (low : γ → Chunk → δ → LuaRun (Chunk × γ)) (extra : δ) : Filter γ :=
  fun ctx chunk => low ctx chunk extra

/-- The upvalues of `filter.chain`; `ctx` are those of its filters. -/
structure FilterChain (γ : Type) where
  ctx : ℕ → γ
  top : ℕ
  index : ℕ
  retry : Chunk

/-- A chain before its first call. -/
def FilterChain.init (ctx : ℕ → γ) : FilterChain γ := ⟨ctx, 1, 1, some []⟩

def FilterChain.set (s : FilterChain γ) (c : γ) : FilterChain γ :=
  { s with ctx := Function.update s.ctx s.index c }

/-- The loop of `filter.chain`. -/
def filterChainLoop (arg : ℕ → Filter γ) (n : ℕ) (s : FilterChain γ) (chunk : Chunk) :
    LuaRun (Chunk × FilterChain γ) :=
  luaLoop Prod.swap (fun (s, chunk) => do
    if s.index = s.top then
      let (chunk, c) ← arg s.index (s.ctx s.index) chunk
      if chunk = some [] ∨ s.top = n then return .inr (chunk, s.set c)
      else if chunk.isSome then return .inl ({ s.set c with index := s.index + 1 }, chunk)
      else return .inl ({ s.set c with top := s.top + 1, index := s.top + 1 }, none)
    else
      let (chunk, c) ← arg s.index (s.ctx s.index) (some (chunk.getD [])) -- chunk or ""
      if chunk = some [] then return .inl ({ s.set c with index := s.index - 1 }, s.retry)
      else if chunk.isSome then
        if s.index = n then return .inr (chunk, s.set c)
        else return .inl ({ s.set c with index := s.index + 1 }, chunk)
      else throw "filter returned inappropriate nil") (s, chunk)

/-- `filter.chain`, of the filters `arg 1` to `arg n`. -/
def filterChain (arg : ℕ → Filter γ) (n : ℕ) : Filter (FilterChain γ) :=
  fun s chunk => filterChainLoop arg n { s with retry := if chunk.isSome then s.retry else none } chunk

/-! ## Sources -/

def BLOCKSIZE : ℕ := 2048

/-- `source.empty`. -/
def sourceEmpty : Source Unit := fun s => return ((none, none), s)

/-- `source.error`. -/
def sourceError (err : String) : Source Unit := fun s => return ((none, some err), s)

/-- `source.string`; the upvalue is `i`. -/
def sourceString (s : List UInt8) : Source ℕ := fun i =>
  let chunk := (s.drop (i - 1)).take BLOCKSIZE
  return ((if chunk ≠ [] then some chunk else none, none), i + BLOCKSIZE)

/-- `source.rewind`, called with a chunk or without; the upvalue `t` has its last element in front. -/
def sourceRewind (src : Source α) (chunk : Chunk) :
    List (List UInt8) × α → LuaRun ((Chunk × Option String) × (List (List UInt8) × α))
  | (t, a) => do
    match chunk with
    | some chunk => return ((none, none), (chunk :: t, a))
    | none =>
      match t with
      | chunk :: t => return ((some chunk, none), (t, a))
      | [] =>
        let (r, a) ← src a
        return (r, ([], a))

/-- The upvalues of `source.chain`, and those of its source and its filter. -/
structure SourceChain (α γ : Type) where
  src : α
  f : γ
  eating : Bool
  lastIn : Chunk
  lastOut : Chunk

def SourceChain.init (src : α) (f : γ) : SourceChain α γ := ⟨src, f, false, some [], some []⟩

/-- The loop of `source.chain`. -/
def sourceChainLoop (src : Source α) (f : Filter γ) (s : SourceChain α γ) :
    LuaRun ((Chunk × Option String) × SourceChain α γ) :=
  luaLoop (fun s => ((none, none), s)) (fun s => do
    if s.eating then
      let (lastOut, c) ← f s.f s.lastIn
      if lastOut = some [] then
        if s.lastIn = some [] then return .inl { s with f := c, lastOut, eating := false }
        else throw "filter returned \"\""
      else if lastOut.isSome then return .inr ((lastOut, none), { s with f := c, lastOut })
      else if s.lastIn.isSome then throw "filter returned inappropriate nil"
      else return .inr ((none, none), { s with f := c, lastOut })
    else
      let ((lastIn, err), a) ← src s.src
      if err.isSome then return .inr ((none, err), { s with src := a, lastIn })
      else
        let (lastOut, c) ← f s.f lastIn
        if lastOut = some [] then return .inl { s with src := a, f := c, lastIn, lastOut }
        else if lastOut.isSome then
          return .inr ((lastOut, none), ⟨a, c, true, lastIn.map fun _ => [], lastOut⟩)
        else if lastIn.isSome then throw "filter returned inappropriate nil"
        else return .inr ((none, none), { s with src := a, f := c, lastIn, lastOut })) s

/-- `source.chain`. -/
def sourceChain (src : Source α) (f : Filter γ) : Source (SourceChain α γ) := fun s =>
  if s.lastOut.isSome then sourceChainLoop src f s else throw "source is empty!"

/-- `source.cat`; the upvalue has the sources that are left. -/
def sourceCat : Source (List (Source α × α))
  | [] => return ((none, none), [])
  | (src, a) :: arg => do
    let ((chunk, err), a) ← src a
    if chunk.isSome then return ((chunk, none), (src, a) :: arg)
    else if err.isSome then return ((none, err), (src, a) :: arg)
    else sourceCat arg

/-! ## Sinks -/

/-- `sink.table`. -/
def sinkTable : Sink (List (List UInt8)) := fun t chunk _ => return ((true, none), t ++ chunk.toList)

/-- `sink.null`. -/
def sinkNull : Sink Unit := fun s _ _ => return ((true, none), s)

/-- `sink.error`. -/
def sinkError (err : String) : Sink Unit := fun s _ _ => return ((false, some err), s)

/-- The loop of `sink.chain`. -/
def sinkChainLoop (f : Filter γ) (snk : Sink β) (done : Chunk) (err : Option String) (filtered : Chunk)
    (s : γ × β) : LuaRun ((Bool × Option String) × (γ × β)) :=
  luaLoop (fun p => ((true, none), p.2)) (fun (filtered, c, b) => do
    let ((ret, snkerr), b) ← snk b filtered err
    if ¬ ret then return .inr ((false, snkerr), (c, b))
    else if filtered = done then return .inr ((true, none), (c, b))
    else
      let (filtered, c) ← f c done
      return .inl (filtered, c, b)) (filtered, s)

/-- `sink.chain`, of one filter. -/
def sinkChain (f : Filter γ) (snk : Sink β) : Sink (γ × β) := fun s chunk err => do
  if chunk ≠ some [] then
    let (filtered, c) ← f s.1 chunk
    sinkChainLoop f snk (chunk.map fun _ => []) err filtered (c, s.2)
  else return ((true, none), s)

/-! ## Pumps -/

/-- `pump.step`. -/
def pumpStep (src : Source α) (snk : Sink β) (s : α × β) : LuaRun ((Bool × Option String) × (α × β)) := do
  let ((chunk, srcErr), a) ← src s.1
  let ((ret, snkErr), b) ← snk s.2 chunk srcErr
  if chunk.isSome ∧ ret then return ((true, none), (a, b))
  else return ((false, srcErr.or snkErr), (a, b))

/-- The loop of `pump.all`. -/
def pumpLoop (step : σ → LuaRun ((Bool × Option String) × σ)) (s : σ) : LuaRun ((Bool × Option String) × σ) :=
  luaLoop (fun s => ((true, none), s)) (fun s => do
    let ((ret, err), s) ← step s
    if ret then return .inl s
    else if err.isSome then return .inr ((false, err), s)
    else return .inr ((true, none), s)) s

/-- `pump.all`, with the default step. -/
def pumpAll (src : Source α) (snk : Sink β) (s : α × β) : LuaRun ((Bool × Option String) × (α × β)) :=
  pumpLoop (pumpStep src snk) s

end Qsf
