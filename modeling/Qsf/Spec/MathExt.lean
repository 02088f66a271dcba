import Qsf.Spec.LuaScript

/-!
# Extensions of `math` (`lib/math_ext.lua`)

`math.gcd`, `math.shuffle_array` and `math.random_array`. An integer of Lua is an `Int64`, and
wraps around. What `math.random(n)` returns is decided by the environment, once for each `n` of
a shuffle.
-/

set_option autoImplicit false

universe u

namespace Qsf

/-! ## Integers of Lua -/

/-- `m % n`, where `n` is not 0: the remainder of a division that rounds down. -/
def luaMod (m n : Int64) : Int64 := Int64.ofInt (m.toInt.fmod n.toInt)

/-- `math.abs`. -/
def mathAbs (n : Int64) : Int64 := if n < 0 then -n else n

/-- `for n = init, limit do`: the values of `n`, with `fuel` for as many. -/
def luaFor : ℕ → Int64 → Int64 → Except LuaStop (List Int64)
  | 0, _, _ => .error .unfinished
  | fuel + 1, n, limit => if n ≤ limit then (luaFor fuel (n + 1) limit).map (n :: ·) else .ok []

theorem natAbs_fmod_lt (a : ℤ) {b : ℤ} (hb : b ≠ 0) : (a.fmod b).natAbs < b.natAbs := by
  rcases lt_or_gt_of_ne hb with hneg | hpos
  · have hlt := Int.fmod_lt_of_pos (-a) (neg_pos.2 hneg)
    have hge := Int.fmod_nonneg_of_pos (-a) (neg_pos.2 hneg)
    rw [Int.neg_fmod_neg] at hlt hge
    omega
  · have hlt := Int.fmod_lt_of_pos a hpos
    have hge := Int.fmod_nonneg_of_pos a hpos
    omega

theorem toInt_ne_zero {n : Int64} (h : n ≠ 0) : n.toInt ≠ 0 := by
  intro e
  exact h (Int64.toInt_inj.1 (e.trans Int64.toInt_zero.symm))

theorem toInt_luaMod (m : Int64) {n : Int64} (h : n ≠ 0) : (luaMod m n).toInt = m.toInt.fmod n.toInt := by
  have hlt := natAbs_fmod_lt m.toInt (toInt_ne_zero h)
  have hhi := n.toInt_lt
  have hlo := n.le_toInt
  exact Int64.toInt_ofInt_of_le (by omega) (by omega)

/-! ## `math_ext.lua` -/

/-- `math.gcd`. -/
def mathGcd (a b : Int64) : Int64 := if b ≠ 0 then mathGcd b (luaMod a b) else mathAbs a
termination_by b.toInt.natAbs
decreasing_by
  rw [toInt_luaMod a ‹b ≠ 0›]
  exact natAbs_fmod_lt a.toInt (toInt_ne_zero ‹b ≠ 0›)

variable {α : Type u}

/-- `array[off], array[n] = array[n], array[off]`. -/
def arraySwap (array : List α) (off n : ℕ) : List α :=
  match array[off - 1]?, array[n - 1]? with
  | some x, some y => (array.set (off - 1) y).set (n - 1) x
  | _, _ => array           -- no element has one of the indices

/-- `math.shuffle_array`; `random n` is what `math.random(n)` returns. -/
def mathShuffleArray (random : ℕ → ℕ) (array : List α) : List α :=
  (List.range' 2 (array.length - 1)).foldl (fun array n => arraySwap array (random n) n) array

/-- `math.random_array`. -/
def mathRandomArray (random : ℕ → ℕ) (min max : Int64) (fuel : ℕ) : Except LuaStop (List Int64) :=
  if min ≤ max then (luaFor fuel min max).map (mathShuffleArray random)
  else .error (.raises (.error "assertion failed!" 0))

end Qsf
