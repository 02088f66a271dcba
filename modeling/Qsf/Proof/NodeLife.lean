import Qsf.Spec.NodeLife

/-!
# What the tag of a node guards

`init_node` sets the good tag last, and `cleanup_node` takes it away last: behind
`zmq_close` and behind `lua_close`, which runs finalizers. So a finalizer that is left to
`lua_close` finds a good tag and a closed socket. `tag_guards_iff` says that this, and a
loop that could not be initialised, is all that can go wrong.
-/

set_option autoImplicit false

namespace Qsf

namespace NodeLife

variable {s : NodeLife} {e : LifeEvent}

/-- **The good tag guards usable resources**: Lua code that finds it finds an open socket
and a loop that is initialised and not closed, and nothing else was operated on. -/
structure Guarded (s : NodeLife) : Prop where
  usable : s.LuaRuns → s.checkTag = true → s.dealer = .opened ∧ s.loop = .opened
  used : s.misused = false

/-- The loop was initialised when `init_node` sets the tag, and `cleanup_node` leaves no
finalizer to `lua_close`. -/
def Orderly (s : NodeLife) : LifeEvent → Prop
  | .opened => s.loop = .opened
  | .cleanupNode => s.luaState = true → s.finalizers = 0
  | _ => True

/-- What a node is like in each phase of an orderly life. -/
def Shape (s : NodeLife) : Prop :=
  match s.phase with
  | .created | .opening | .failed => s.tag = 0 ∧ s.dealer = .unset ∧ s.luaState = false
  | .script => s.dealer = .opened ∧ s.loop = .opened ∧ s.luaState = true ∧ s.checkTag = true
  | .luaClose => s.finalizers = 0
  | .luaClosed | .ended => True

/-- The invariant of an orderly life. -/
structure Inv (s : NodeLife) : Prop where
  shape : s.Shape
  used : s.misused = false

theorem not_checkTag_zero (h : s.tag = 0) : ¬ s.checkTag = true := by
  unfold checkTag
  rw [h]
  decide

theorem Inv.guarded (h : s.Inv) : s.Guarded := by
  refine ⟨?_, h.used⟩
  intro hlua htag
  have hshape := h.shape
  -- Lua code runs while the node is set up, in its script, and as a finalizer
  rcases hlua with hp | hp | ⟨hp, hfin⟩
  · simp only [Shape, hp] at hshape
    exact absurd htag (not_checkTag_zero hshape.1)
  · simp only [Shape, hp] at hshape
    exact ⟨hshape.1, hshape.2.1⟩
  · simp only [Shape, hp] at hshape
    exact absurd hshape hfin

/-- An operation on what is open is recorded as nothing. -/
theorem operate_opened {r : Resource} (h : r = .opened) : s.operate r = s := by
  unfold operate
  simp only [h, ne_eq, not_true_eq_false, decide_false, Bool.or_false]

/-- **A call of the library** by Lua code leaves a guarded node as it is. -/
theorem Guarded.call (h : s.Guarded) (hlua : s.LuaRuns) (c : NodeCall) : s.nodeCall c = s := by
  unfold nodeCall
  by_cases htag : s.checkTag = true
  · obtain ⟨hdealer, hloop⟩ := h.usable hlua htag
    rw [htag, Bool.not_true, if_neg Bool.false_ne_true]
    cases c with
    | send => exact operate_opened hdealer
    | recv => exact operate_opened hdealer
    | run => exact operate_opened hloop
    | name => rfl
    | launch => rfl
  · rw [Bool.not_eq_true] at htag
    rw [htag, Bool.not_false, if_pos rfl]

/-- `cleanup_node` after a script. -/
theorem cleanupNode_script (hd : s.dealer = .opened) (hl : s.luaState = true) :
    s.cleanupNode = { s with dealer := .closed, phase := .luaClose } := by
  rcases s with ⟨phase, loop, dealer, luaState, tag, finalizers, misused⟩
  obtain rfl : dealer = .opened := hd
  obtain rfl : luaState = true := hl
  rfl

/-- `cleanup_node` after `init_node` failed. -/
theorem cleanupNode_failed (hd : s.dealer = .unset) (hl : s.luaState = false) :
    s.cleanupNode = { s with phase := .luaClosed } := by
  rcases s with ⟨phase, loop, dealer, luaState, tag, finalizers, misused⟩
  obtain rfl : dealer = .unset := hd
  obtain rfl : luaState = false := hl
  rfl

/-- The phase stays, and with it the shape. -/
theorem Inv.finalizers (h : s.Inv) {n : ℕ} (hn : s.phase = .luaClose → n = 0) :
    Inv { s with finalizers := n } := by
  refine ⟨?_, h.used⟩
  have hshape := h.shape
  unfold Shape at hshape ⊢
  cases hp : s.phase with
  | created | opening | failed => simpa only [hp] using hshape
  | script =>
    rw [hp] at hshape
    exact hshape
  | luaClose => exact hn hp
  | luaClosed | ended => trivial

/-- **One step of an orderly life.** -/
theorem inv_step (h : s.Inv) (he : s.enabled e) (hc : s.Orderly e) : (s.step e).Inv := by
  have hshape := h.shape
  cases e with
  | initNode loopInit newstate =>
    have hp : s.phase = .created := he
    simp only [Shape, hp] at hshape
    cases newstate with
    | false => exact ⟨hshape, h.used⟩
    | true => exact ⟨hshape, h.used⟩
  | opened => exact ⟨⟨rfl, hc, rfl, rfl⟩, h.used⟩
  | setFinalizer =>
    simp only [step]
    split
    · exact h
    · rename_i hp
      exact h.finalizers fun hp' => absurd hp' hp
  | finalized =>
    apply h.finalizers
    intro hp
    simp only [Shape, hp] at hshape
    rw [hshape]
  | call c =>
    simp only [step, h.guarded.call he c]
    exact h
  | cleanupNode =>
    rcases he with hp | hp
    · simp only [Shape, hp] at hshape
      obtain ⟨hdealer, -, hlua, -⟩ := hshape
      simp only [step, cleanupNode_script hdealer hlua]
      exact ⟨hc hlua, h.used⟩
    · simp only [Shape, hp] at hshape
      obtain ⟨-, hdealer, hlua⟩ := hshape
      simp only [step, cleanupNode_failed hdealer hlua]
      exact ⟨trivial, h.used⟩
  | luaClosed => exact ⟨trivial, h.used⟩
  | ended loopClose => exact ⟨trivial, h.used⟩

/-- **A step that is not orderly** lets Lua code find a good tag over something unusable. -/
theorem inv_break (h : s.Inv) (he : s.enabled e) (hc : ¬ s.Orderly e) : ¬ (s.step e).Guarded := by
  intro hg
  have hshape := h.shape
  cases e with
  | opened => exact hc (hg.usable (.inr (.inl rfl)) rfl).2
  | cleanupNode =>
    -- `lua_close` is called, with a finalizer left to run
    obtain ⟨hlua, hfin⟩ : s.luaState = true ∧ s.finalizers ≠ 0 := by
      simpa only [Orderly, Classical.not_imp] using hc
    have hp : s.phase = .script := by
      rcases he with hp | hp
      · exact hp
      · simp only [Shape, hp] at hshape
        rw [hshape.2.2] at hlua
        cases hlua
    simp only [Shape, hp] at hshape
    obtain ⟨hdealer, -, -, htag⟩ := hshape
    simp only [step, cleanupNode_script hdealer hlua] at hg
    have hclosed := (hg.usable (.inr (.inr ⟨rfl, hfin⟩)) htag).1
    cases hclosed
  | initNode | setFinalizer | finalized | call | luaClosed | ended => exact hc trivial

theorem inv_create : create.Inv := ⟨⟨rfl, rfl, rfl⟩, rfl⟩

/-- **The tag guards the node** throughout its life exactly when the loop was initialised
and no finalizer is left to `lua_close`. -/
theorem tag_guards_iff {es : List LifeEvent} (hr : nodeLife.Runs create es) :
    nodeLife.Along Guarded create es ↔ nodeLife.Meets Orderly create es :=
  Machine.along_iff_meets (I := Inv) (fun _ _ => inv_step) (fun _ _ => inv_break) (fun _ => Inv.guarded)
    inv_create hr

/-- A life in which the script has its finalizer collected. -/
theorem tag_guards_iff_collected : nodeLife.Along Guarded create
    [.initNode true true, .opened, .setFinalizer, .call .send, .finalized, .cleanupNode, .luaClosed, .ended true] := by
  refine (tag_guards_iff ?_).2 ⟨trivial, rfl, trivial, trivial, trivial, fun _ => rfl, trivial, trivial, trivial⟩
  have hscript : ∀ n, LuaRuns ⟨.script, .opened, .opened, true, QSF_NODE_TAG_VALUE_GOOD, n, false⟩ :=
    fun _ => .inr (.inl rfl)
  exact ⟨rfl, rfl, hscript 0, hscript 1, ⟨hscript 1, Nat.one_ne_zero⟩, .inl rfl, ⟨rfl, rfl⟩, rfl, trivial⟩

/-- **A script that leaves an object with a finalizer**, which sends a message: `lua_close`
runs it behind `zmq_close`, the tag is still good, and `zmq_send` gets a closed socket. -/
theorem finalizer_sends_on_closed :
    let es : List LifeEvent := [.initNode true true, .opened, .setFinalizer, .cleanupNode, .call .send]
    nodeLife.Runs create es ∧ (nodeLife.exec create es).misused = true ∧ ¬ nodeLife.Along Guarded create es := by
  intro es
  have hmis : (nodeLife.exec create es).misused = true := by decide
  have hclose : LuaRuns ⟨.luaClose, .opened, .closed, true, QSF_NODE_TAG_VALUE_GOOD, 1, false⟩ :=
    .inr (.inr ⟨rfl, Nat.one_ne_zero⟩)
  refine ⟨⟨rfl, rfl, .inr (.inl rfl), .inl rfl, hclose, trivial⟩, hmis, ?_⟩
  intro h
  rw [h.last.used] at hmis
  cases hmis

end NodeLife

end Qsf
