import Qsf.Lib.Stream
import Qsf.Spec.NetServer

/-!
# The wire format

A message on the wire is a 2-byte big-endian length and that many bytes. This module
says what a byte stream means, without any buffer: `frameSplitter` takes one message
off the front, and the library's `parse` repeats it.
-/

set_option autoImplicit false

namespace Qsf

/-- One frame: the length `n` in two bytes, then `n` bytes. -/
def splitFrame : List UInt8 → Option (List UInt8 × List UInt8)
  | b0 :: b1 :: rest =>
    let n := 256 * b0.toNat + b1.toNat
    if rest.length < n then none else some (rest.take n, rest.drop n)
  | _ => none

/-- The reference parser of the stream. -/
def frameSplitter : Splitter UInt8 (List UInt8) where
  split := splitFrame
  shrinks := by
    intro p x r h
    match p with
    | [] => simp [splitFrame] at h
    | [_] => simp [splitFrame] at h
    | b0 :: b1 :: rest =>
      simp only [splitFrame] at h
      split at h
      · simp at h
      · simp only [Option.some.injEq, Prod.mk.injEq] at h
        rw [← h.2]
        simp only [List.length_drop, List.length_cons]
        omega
  stable := by
    intro p x r q h
    match p with
    | [] => simp [splitFrame] at h
    | [_] => simp [splitFrame] at h
    | b0 :: b1 :: rest =>
      simp only [splitFrame] at h
      split at h
      · simp at h
      · rename_i hn
        simp only [Option.some.injEq, Prod.mk.injEq] at h
        rw [← h.1, ← h.2]
        simp only [List.cons_append, splitFrame, List.length_append]
        rw [if_neg (by omega), List.take_append_of_le_length (by omega),
          List.drop_append_of_le_length (by omega)]

/-- The non-empty bodies of the complete frames of a stream. -/
def frameBodies (p : List UInt8) : List (List UInt8) :=
  (frameSplitter.parse p).1.filter (· ≠ [])

/-- What follows the last complete frame. -/
def frameTail (p : List UInt8) : List UInt8 := (frameSplitter.parse p).2

/-- The frame of a message. -/
def frame (m : List UInt8) : List UInt8 :=
  UInt8.ofNat (m.length / 256) :: UInt8.ofNat (m.length % 256) :: m

/-- The state after `do_session_write` of each message in turn, each given whole. -/
def writeMessages (s : Server) (a : ℕ) (msgs : List (List UInt8)) : Server :=
  msgs.foldl (fun s m => (s.doSessionWrite a m (UInt16.ofNat m.length) 0).2) s

/-- The bytes that the reads of session `a` brought in a run. -/
def bytesRead (a : ℕ) : List Event → List UInt8
  | [] => []
  | ⟨.read b _ (.data bytes), _⟩ :: es =>
    if b = a then bytes ++ bytesRead a es else bytesRead a es
  | _ :: es => bytesRead a es

/-- The data callbacks of session `a`, in order. -/
def dataReports (a : ℕ) (tr : List TraceEvent) : List Report :=
  tr.filterMap fun
    | .report (some b) r => if b = a ∧ r.err = 0 then some r else none
    | _ => none

end Qsf
