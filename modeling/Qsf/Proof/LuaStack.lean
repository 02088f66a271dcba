import Qsf.Spec.LuaStack

/-!
# What a callback leaves on the Lua stack

`qsf_trace_pcall` takes back the handler it put under the function, wherever the function
was (`qsfTracePcall_eq`). It does not take the error value, and neither do its callers; nor do
they take a value that is no function. So each callback that does not return normally leaves
one value behind, for good (`exec_length`).
-/

set_option autoImplicit false

namespace Qsf

variable {callmeta : LuaValue → Option LuaValue} {traceback : LuaValue → LuaValue}

@[simp] theorem luaTop_append (stack : LuaStack) (v : LuaValue) : luaTop (stack ++ [v]) = v := by
  unfold luaTop
  rw [List.getLastD_concat]

theorem insertIdx_append (xs ys : LuaStack) (v : LuaValue) :
    (xs ++ ys).insertIdx xs.length v = xs ++ v :: ys := by
  induction xs with
  | nil => exact List.insertIdx_zero
  | cons x xs ih => rw [List.cons_append, List.length_cons, List.insertIdx_succ_cons, ih, List.cons_append]

/-- The top goes under the function and its arguments. -/
theorem luaInsert_append (below args : LuaStack) (f v : LuaValue) :
    luaInsert (below ++ f :: args ++ [v]) (below.length + 1) = below ++ v :: f :: args := by
  unfold luaInsert
  rw [luaTop_append, List.dropLast_concat, Nat.add_sub_cancel, insertIdx_append]

theorem luaRemove_append (below above : LuaStack) (v : LuaValue) :
    luaRemove (below ++ v :: above) (below.length + 1) = below ++ above := by
  unfold luaRemove
  rw [Nat.add_sub_cancel, List.eraseIdx_append_of_length_le (le_refl _), Nat.sub_self,
    List.eraseIdx_zero, List.tail_cons]

/-- What a call leaves above the values that were there before. -/
def LuaOutcome.residue (callmeta : LuaValue → Option LuaValue) (traceback : LuaValue → LuaValue) :
    LuaOutcome → LuaStack
  | .returns => []
  | .raises err => [qsfTraceback callmeta traceback err]

/-- **`qsf_trace_pcall`** pops the function and its arguments and takes the handler away; an
error is handled by it, and its value stays. -/
theorem qsfTracePcall_eq (callmeta : LuaValue → Option LuaValue) (traceback : LuaValue → LuaValue)
    (below args : LuaStack) (f : LuaValue) (outcome : LuaOutcome) :
    (qsfTracePcall callmeta traceback (below ++ f :: args) args.length outcome).2 =
      below ++ outcome.residue callmeta traceback := by
  have hbase : (below ++ f :: args).length - args.length = below.length + 1 := by
    rw [List.length_append, List.length_cons]
    omega
  -- with the handler in place, function and arguments are what is above it
  have htake : (below ++ QSF_TRACEBACK :: f :: args).take
      ((below ++ QSF_TRACEBACK :: f :: args).length - (args.length + 1)) = below ++ [QSF_TRACEBACK] := by
    have hlen : (below ++ QSF_TRACEBACK :: f :: args).length - (args.length + 1) =
        (below ++ [QSF_TRACEBACK]).length := by
      simp only [List.length_append, List.length_cons, List.length_nil]
      omega
    rw [hlen, List.append_cons below _ (f :: args), List.take_left]
  have hmsgh : (below ++ QSF_TRACEBACK :: f :: args)[below.length + 1 - 1]? = some QSF_TRACEBACK := by
    rw [Nat.add_sub_cancel, List.getElem?_append_right (le_refl _), Nat.sub_self, List.getElem?_cons_zero]
  unfold qsfTracePcall
  simp only [hbase, luaInsert_append]
  cases outcome with
  | returns =>
    simp only [luaPcall, htake, LuaOutcome.residue]
    exact luaRemove_append below [] _
  | raises err =>
    simp only [luaPcall, htake, hmsgh, luaHandle, if_true, LuaOutcome.residue]
    rw [List.append_assoc]
    exact luaRemove_append below [_] _

/-! ## Callbacks -/

/-- What a callback leaves behind: the value that is no function, or what the call left. -/
def callbackResidue (callmeta : LuaValue → Option LuaValue) (traceback : LuaValue → LuaValue)
    (v : LuaValue) (outcome : LuaOutcome) : LuaStack :=
  if luaIsfunction v then outcome.residue callmeta traceback else [v]

theorem onServerRead_eq (w : Runtime) (i : ℕ) (stack : LuaStack) (err : ℤ) (serial : UInt32)
    (data : List UInt8) (outcome : LuaOutcome) :
    onServerRead callmeta traceback w i stack err serial data outcome = stack ++
      callbackResidue callmeta traceback (luaRawgeti w.registry (w.servers i).readRef) outcome := by
  unfold onServerRead callbackResidue
  simp only [luaTop_append]
  split
  · have heq := qsfTracePcall_eq callmeta traceback stack
      [if err = 0 then .nil else .integer err, .integer serial.toNat, .string data]
      (luaRawgeti w.registry (w.servers i).readRef) outcome
    simpa only [List.append_assoc, List.cons_append, List.nil_append, List.length_cons, List.length_nil]
      using heq
  · trivial

theorem timeoutCb_eq (w : Runtime) (t : ℕ) (stack : LuaStack) (outcome : LuaOutcome) :
    timeoutCb callmeta traceback w t stack outcome = stack ++
      callbackResidue callmeta traceback (luaRawgeti w.registry (w.timers t).ref) outcome := by
  unfold timeoutCb callbackResidue
  simp only [luaTop_append]
  split
  · exact qsfTracePcall_eq callmeta traceback stack [] _ outcome
  · trivial

namespace StackEvent

/-- What the stored reference denotes. -/
def callee : StackEvent → LuaValue
  | .serverRead w i _ _ _ _ => luaRawgeti w.registry (w.servers i).readRef
  | .timeout w t _ => luaRawgeti w.registry (w.timers t).ref

def outcome : StackEvent → LuaOutcome
  | .serverRead _ _ _ _ _ outcome => outcome
  | .timeout _ _ outcome => outcome

/-- The reference denotes a function, and the function returns. -/
def Returns (e : StackEvent) : Prop := luaIsfunction e.callee = true ∧ e.outcome = .returns

end StackEvent

variable {e : StackEvent}

/-- **One callback**, as far as the stack goes. -/
theorem luaStack_step (stack : LuaStack) (e : StackEvent) :
    (luaStack callmeta traceback).step stack e =
      stack ++ callbackResidue callmeta traceback e.callee e.outcome := by
  cases e with
  | serverRead w i err serial data outcome => exact onServerRead_eq w i stack err serial data outcome
  | timeout w t outcome => exact timeoutCb_eq w t stack outcome

theorem callbackResidue_returns (h : e.Returns) :
    callbackResidue callmeta traceback e.callee e.outcome = [] := by
  unfold callbackResidue
  rw [if_pos h.1, h.2]
  rfl

/-- Anything else leaves one value. -/
theorem length_callbackResidue (h : ¬ e.Returns) :
    (callbackResidue callmeta traceback e.callee e.outcome).length = 1 := by
  unfold callbackResidue
  split
  · next hf =>
    cases ho : e.outcome with
    | returns => exact absurd ⟨hf, ho⟩ h
    | raises err => rfl
  · rfl

/-- **After any run** the stack has grown by one value for each callback that did not return
normally. -/
theorem exec_length [DecidablePred StackEvent.Returns] (stack : LuaStack) (es : List StackEvent) :
    ((luaStack callmeta traceback).exec stack es).length =
      stack.length + es.countP fun e => ¬ e.Returns := by
  induction es generalizing stack with
  | nil => rfl
  | cons e es ih =>
    have hexec : (luaStack callmeta traceback).exec stack (e :: es) =
        (luaStack callmeta traceback).exec ((luaStack callmeta traceback).step stack e) es := rfl
    rw [hexec, ih, luaStack_step, List.length_append]
    by_cases he : e.Returns
    · rw [callbackResidue_returns he, List.countP_cons_of_neg (by simpa using he)]
      rfl
    · rw [length_callbackResidue he, List.countP_cons_of_pos (by simpa using he)]
      omega

/-- **The stack stays balanced** exactly when every callback finds a function, and the function
returns. -/
theorem balanced_iff (stack : LuaStack) (es : List StackEvent) :
    (luaStack callmeta traceback).Along (fun s => s.length = stack.length) stack es ↔
      ∀ e ∈ es, e.Returns := by
  have hruns : (luaStack callmeta traceback).Runs stack es :=
    (Machine.meets_iff_forall (K := fun _ => True)).2 fun _ _ => trivial
  rw [← Machine.meets_iff_forall (M := luaStack callmeta traceback) (s := stack)]
  refine Machine.along_iff_meets (I := fun s : LuaStack => s.length = stack.length) ?_ ?_ (fun _ h => h) rfl hruns
  · intro s e hs _ he
    rw [luaStack_step, callbackResidue_returns he, List.append_nil]
    exact hs
  · intro s e hs _ he hlen
    rw [luaStack_step, List.length_append, length_callbackResidue he, hs] at hlen
    omega

/-- A timer whose function raises an error, and a server that has no function yet. -/
theorem balanced_not :
    let integer : LuaValue → Option ℤ := fun v => match v with | .integer n => some n | _ => none
    let w := (Runtime.luvNewTimer integer Runtime.init [.integer 1, .integer 0, .function 7] 0 0).1
    let raising := StackEvent.timeout w 0 (.raises (.string [98]))
    let unset := StackEvent.serverRead w 0 0 1 [98] .returns
    ¬ (luaStack (fun _ => none) id).Along (fun s => s.length = 0) [] [raising] ∧
      ¬ (luaStack (fun _ => none) id).Along (fun s => s.length = 0) [] [unset] ∧
      ((luaStack (fun _ => none) id).exec [] [raising, unset, raising]).length = 3 := by
  intro integer w raising unset
  refine ⟨?_, ?_, by decide⟩
  · intro h
    exact absurd h.last (by decide)
  · intro h
    exact absurd h.last (by decide)

end Qsf
