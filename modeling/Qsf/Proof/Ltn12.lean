import Qsf.Lib.Stage
import Qsf.Spec.Ltn12
import Mathlib.Tactic

/-!
# Filters, sources, sinks and pumps: proofs

* `filter_chain_composes`: a chain of filters makes of its input what the filters make of it one
  after the other, piece for piece.
* `sourceChain_gives`, `sinkChain_accepts`: a filter at a source, and at a sink.
* `pump_filtered`: the two give the same, unless the source fails.
-/

set_option autoImplicit false

namespace Qsf

variable {α β γ : Type} {f : Filter γ} {arg : ℕ → Filter γ} {n t i : ℕ} {c c' : ℕ → γ} {r x y : Chunk} {a : γ}
  {ps : List (List UInt8)}

/-! ## Loops, round by round -/

section Loops

variable {σ : Type}

theorem filterChainLoop_eq (arg : ℕ → Filter γ) (n : ℕ) (s : FilterChain γ) (chunk : Chunk) :
    filterChainLoop arg n s chunk = (do
      if s.index = s.top then
        let (chunk, c) ← arg s.index (s.ctx s.index) chunk
        if chunk = some [] ∨ s.top = n then return (chunk, s.set c)
        else if chunk.isSome then filterChainLoop arg n { s.set c with index := s.index + 1 } chunk
        else filterChainLoop arg n { s.set c with top := s.top + 1, index := s.top + 1 } none
      else
        let (chunk, c) ← arg s.index (s.ctx s.index) (some (chunk.getD []))
        if chunk = some [] then filterChainLoop arg n { s.set c with index := s.index - 1 } s.retry
        else if chunk.isSome then
          if s.index = n then return (chunk, s.set c)
          else filterChainLoop arg n { s.set c with index := s.index + 1 } chunk
        else throw "filter returned inappropriate nil") := by
  unfold filterChainLoop
  rw [luaLoop_eq]
  dsimp only
  by_cases h : s.index = s.top
  · rw [if_pos h, if_pos h, bind_assoc]
    refine bind_congr fun r => ?_
    split_ifs <;> rfl
  · rw [if_neg h, if_neg h, bind_assoc]
    refine bind_congr fun r => ?_
    split_ifs <;> rfl

theorem sourceChainLoop_eq (src : Source α) (f : Filter γ) (s : SourceChain α γ) :
    sourceChainLoop src f s = (do
    if s.eating then
      let (lastOut, c) ← f s.f s.lastIn
      if lastOut = some [] then
        if s.lastIn = some [] then sourceChainLoop src f { s with f := c, lastOut, eating := false }
        else throw "filter returned \"\""
      else if lastOut.isSome then return ((lastOut, none), { s with f := c, lastOut })
      else if s.lastIn.isSome then throw "filter returned inappropriate nil"
      else return ((none, none), { s with f := c, lastOut })
    else
      let ((lastIn, err), a) ← src s.src
      if err.isSome then return ((none, err), { s with src := a, lastIn })
      else
        let (lastOut, c) ← f s.f lastIn
        if lastOut = some [] then sourceChainLoop src f { s with src := a, f := c, lastIn, lastOut }
        else if lastOut.isSome then
          return ((lastOut, none), ⟨a, c, true, lastIn.map fun _ => [], lastOut⟩)
        else if lastIn.isSome then throw "filter returned inappropriate nil"
        else return ((none, none), { s with src := a, f := c, lastIn, lastOut })) := by
  unfold sourceChainLoop
  rw [luaLoop_eq]
  dsimp only
  by_cases h : s.eating = true
  · rw [if_pos h, if_pos h, bind_assoc]
    refine bind_congr fun r => ?_
    split_ifs <;> rfl
  · rw [if_neg h, if_neg h, bind_assoc]
    refine bind_congr fun r => ?_
    by_cases herr : r.1.2.isSome = true
    · rw [if_pos herr, if_pos herr]
      rfl
    · rw [if_neg herr, if_neg herr, bind_assoc]
      refine bind_congr fun r => ?_
      split_ifs <;> rfl

theorem sinkChainLoop_eq (f : Filter γ) (snk : Sink β) (done : Chunk) (err : Option String) (filtered : Chunk)
    (s : γ × β) :
    sinkChainLoop f snk done err filtered s = (do
    let ((ret, snkerr), b) ← snk s.2 filtered err
    if ¬ ret then return ((false, snkerr), (s.1, b))
    else if filtered = done then return ((true, none), (s.1, b))
    else
      let (filtered, c) ← f s.1 done
      sinkChainLoop f snk done err filtered (c, b)) := by
  unfold sinkChainLoop
  rw [luaLoop_eq, bind_assoc]
  refine bind_congr fun r => ?_
  dsimp only
  split_ifs
  · rfl
  · rw [bind_assoc]
    exact bind_congr fun _ => rfl
  · rfl

theorem pumpLoop_eq (step : σ → LuaRun ((Bool × Option String) × σ)) (s : σ) :
    pumpLoop step s = (do
    let ((ret, err), s) ← step s
    if ret then pumpLoop step s
    else if err.isSome then return ((false, err), s)
    else return ((true, none), s)) := by
  unfold pumpLoop
  rw [luaLoop_eq, bind_assoc]
  refine bind_congr fun r => ?_
  dsimp only
  split_ifs <;> rfl

end Loops

/-- What a filter may return: what it does return. -/
def Filter.stage (f : Filter γ) : Stage γ (List UInt8) := fun s x y s' => f s x = pure (y, s')

/-- A filter, given these chunks and then nil, returns these pieces before it asks for the next
chunk, and before nil. -/
def Filter.Run (f : Filter γ) (s : γ) (xs out : List (List UInt8)) (s' : γ) : Prop :=
  f.stage.Run [] s xs out s'

/-! ## Chains of filters -/

section Chain

/-! What one round of the loop does. -/

theorem chainLoop_top_return (h : arg t (c t) x = pure (y, a)) (hy : y = some [] ∨ t = n) :
    filterChainLoop arg n ⟨c, t, t, r⟩ x = pure (y, ⟨Function.update c t a, t, t, r⟩) := by
  rw [filterChainLoop_eq, if_pos rfl, h]
  exact if_pos hy

theorem chainLoop_top_pass {p : List UInt8} (h : arg t (c t) x = pure (some p, a)) (hp : p ≠ []) (ht : t ≠ n) :
    filterChainLoop arg n ⟨c, t, t, r⟩ x =
      filterChainLoop arg n ⟨Function.update c t a, t, t + 1, r⟩ (some p) := by
  rw [filterChainLoop_eq, if_pos rfl, h]
  exact (if_neg fun e => e.elim (fun e => hp (Option.some.inj e)) ht).trans (if_pos rfl)

theorem chainLoop_top_next (h : arg t (c t) x = pure (none, a)) (ht : t ≠ n) :
    filterChainLoop arg n ⟨c, t, t, r⟩ x =
      filterChainLoop arg n ⟨Function.update c t a, t + 1, t + 1, r⟩ none := by
  rw [filterChainLoop_eq, if_pos rfl, h]
  exact (if_neg fun e => e.elim (fun e => by cases e) ht).trans (if_neg Bool.false_ne_true)

theorem chainLoop_more {q : List UInt8} (hi : t < i) (h : arg i (c i) (some q) = pure (some [], a)) :
    filterChainLoop arg n ⟨c, t, i, r⟩ (some q) = filterChainLoop arg n ⟨Function.update c i a, t, i - 1, r⟩ r := by
  rw [filterChainLoop_eq, if_neg hi.ne']
  show (arg i (c i) (some q) >>= _) = _
  rw [h, pure_bind]
  exact if_pos rfl

theorem chainLoop_return {p q : List UInt8} (hi : t < n) (h : arg n (c n) (some q) = pure (some p, a))
    (hp : p ≠ []) :
    filterChainLoop arg n ⟨c, t, n, r⟩ (some q) = pure (some p, ⟨Function.update c n a, t, n, r⟩) := by
  rw [filterChainLoop_eq, if_neg hi.ne']
  show (arg n (c n) (some q) >>= _) = _
  rw [h]
  exact (if_neg fun e => hp (Option.some.inj e)).trans ((if_pos rfl).trans (if_pos rfl))

theorem chainLoop_pass {p q : List UInt8} (hi : t < i) (hin : i < n)
    (h : arg i (c i) (some q) = pure (some p, a)) (hp : p ≠ []) :
    filterChainLoop arg n ⟨c, t, i, r⟩ (some q) =
      filterChainLoop arg n ⟨Function.update c i a, t, i + 1, r⟩ (some p) := by
  rw [filterChainLoop_eq, if_neg hi.ne']
  show (arg i (c i) (some q) >>= _) = _
  rw [h]
  exact (if_neg fun e => hp (Option.some.inj e)).trans ((if_pos rfl).trans (if_neg hin.ne))

/-- Above the top, nil is as good as an empty chunk. -/
theorem chainLoop_none (hi : t < i) :
    filterChainLoop arg n ⟨c, t, i, r⟩ none = filterChainLoop arg n ⟨c, t, i, r⟩ (some []) := by
  rw [filterChainLoop_eq, filterChainLoop_eq arg n ⟨c, t, i, r⟩ (some []), if_neg hi.ne', if_neg hi.ne']
  rfl

/-- In the loop with a chunk, and then called with `r`, the chain returns these pieces and then `r`. -/
def Goes (arg : ℕ → Filter γ) (n : ℕ) (r : Chunk) (s : FilterChain γ) (x : Chunk) (out : List (List UInt8))
    (s' : FilterChain γ) : Prop :=
  Stage.Drains (fun s x y s' => filterChainLoop arg n s x = pure (y, s') ∧ s'.retry = r) [] r s x out s'

variable {s s₁ s' : FilterChain γ} {x₁ : Chunk} {out : List (List UInt8)}

theorem Goes.of_eq (h : Goes arg n r s₁ x₁ out s')
    (heq : filterChainLoop arg n s x = filterChainLoop arg n s₁ x₁) : Goes arg n r s x out s' := by
  cases h with
  | stop h => exact .stop ⟨heq.trans h.1, h.2⟩
  | piece h hp hps => exact .piece ⟨heq.trans h.1, h.2⟩ hp hps

/-- Where the loop is, the chain is: `retry` is what it is called with. -/
theorem Goes.drains (h : Goes arg n r s x out s') (hx : filterChain arg n s₁ x₁ = filterChainLoop arg n s x) :
    Stage.Drains (filterChain arg n).stage [] r s₁ x₁ out s' := by
  induction h generalizing s₁ x₁ with
  | stop h => exact .stop (hx.trans h.1)
  | @piece s s₂ s₃ x p ps h hp _ ih =>
    refine .piece (hx.trans h.1) hp (ih ?_)
    obtain ⟨ctx, top, index, retry⟩ := s₂
    obtain rfl : retry = r := h.2
    cases retry <;> rfl

/-- When level `i` wants the next chunk: the one below gives it, or at the top the caller. -/
def After (arg : ℕ → Filter γ) (n t : ℕ) (r : Chunk) (i : ℕ) (c : ℕ → γ) (out : List (List UInt8))
    (s' : FilterChain γ) : Prop :=
  if i = t then r = some [] ∧ out = [] ∧ s' = ⟨c, t, t, r⟩ else Goes arg n r ⟨c, t, i - 1, r⟩ r out s'

theorem After.resume {c₁ : ℕ → γ} (h : After arg n t r i c out s') (hr : r = none ∨ r = some []) (hti : t ≤ i)
    (hgoes : Goes arg n r ⟨c₁, t, i, r⟩ (some []) ps s') : Goes arg n r ⟨c₁, t, i, r⟩ r ps s' := by
  rcases hr with rfl | rfl
  · have hlt : t < i := by
      refine hti.lt_of_ne ?_
      rintro rfl
      rw [After, if_pos rfl] at h
      cases h.1
    exact hgoes.of_eq (chainLoop_none hlt)
  · exact hgoes

/-- **The loop passes a chunk on as the stages do.** -/
theorem goes_pass {x : List UInt8} (h : Stage.Pass (fun i => (arg i).stage) [] n i c x ps c')
    (hr : r = none ∨ r = some []) (hti : t ≤ i) (hin : i ≤ n) (hafter : After arg n t r i c' out s') :
    Goes arg n r ⟨c, t, i, r⟩ (some x) (ps ++ out) s' := by
  -- on the passage of the chunk through the stages; at the top a round is another one than above it
  induction h generalizing out s' with
  | more h =>
    rcases hti.eq_or_lt with rfl | hlt
    · rw [After, if_pos rfl] at hafter
      obtain ⟨rfl, rfl, rfl⟩ := hafter
      exact .stop ⟨chainLoop_top_return h (.inl rfl), rfl⟩
    · rw [After, if_neg hlt.ne'] at hafter
      exact hafter.of_eq (chainLoop_more hlt h)
  | out h hp _ ih =>
    have hgoes := hafter.resume hr hti (ih hti hin hafter)
    rcases hti.eq_or_lt with rfl | hlt
    · exact .piece ⟨chainLoop_top_return h (.inr rfl), rfl⟩ hp hgoes
    · exact .piece ⟨chainLoop_return hlt h hp, rfl⟩ hp hgoes
  | @pass i c c₁ c₂ x p a ps qs hi h hp _ _ ih₁ ih₂ =>
    -- when the stage above asks for more, stage `i` goes on with what it still has
    have hnext : After arg n t r (i + 1) c₁ (qs ++ out) s' := by
      rw [After, if_neg (by omega), Nat.add_sub_cancel]
      exact hafter.resume hr hti (ih₂ hti hin hafter)
    rw [List.append_assoc]
    refine (ih₁ (by omega) hi hnext).of_eq ?_
    rcases hti.eq_or_lt with rfl | hlt
    · exact chainLoop_top_pass h hp hi.ne
    · exact chainLoop_pass hlt hi h hp

/-- **At the end the stages end one after the other.** -/
theorem goes_finish (h : Stage.Finish (fun i => (arg i).stage) [] n i c ps c') (hin : i ≤ n) :
    Goes arg n none ⟨c, i, i, none⟩ none ps ⟨c', n, n, none⟩ := by
  induction h with
  | last h => exact .stop ⟨chainLoop_top_return h (.inr rfl), rfl⟩
  | out h hp _ ih => exact .piece ⟨chainLoop_top_return h (.inr rfl), rfl⟩ hp (ih hin)
  | next hi h _ ih => exact (ih hi).of_eq (chainLoop_top_next h hi.ne)
  | pass hi h hp hps _ ih =>
    refine (goes_pass hps (.inl rfl) (Nat.le_succ _) hi ?_).of_eq (chainLoop_top_pass h hp hi.ne)
    rw [After, if_neg (Nat.succ_ne_self _)]
    exact ih hin

theorem feeds_chain {xs : List (List UInt8)} (h : Stage.PassAll (fun i => (arg i).stage) [] n 1 c xs ps c') (hn : 1 ≤ n) :
    Stage.Feeds (filterChain arg n).stage [] ⟨c, 1, 1, some []⟩ xs ps ⟨c', 1, 1, some []⟩ := by
  induction h with
  | nil => exact .nil
  | @cons c c₁ c₂ x xs ps qs hx _ ih =>
    refine .cons ?_ ih
    have hafter : After arg n 1 (some []) 1 c₁ [] ⟨c₁, 1, 1, some []⟩ := by
      rw [After, if_pos rfl]
      exact ⟨rfl, rfl, rfl⟩
    have hgoes := goes_pass hx (.inr rfl) le_rfl hn hafter
    rw [List.append_nil] at hgoes
    exact hgoes.drains rfl

end Chain

/-- **A chain of filters composes them.** If each filter makes the pieces of the one before it into
its own, then the chain makes the chunks into the pieces of the last. -/
theorem filter_chain_composes (arg : ℕ → Filter γ) (ctx : ℕ → γ) (n : ℕ) (m : ℕ → List (List UInt8)) (hn : 1 ≤ n)
    (h : ∀ i, 1 ≤ i → i ≤ n → ∃ s, (arg i).Run (ctx i) (m (i - 1)) (m i) s) :
    ∃ s, (filterChain arg n).Run (.init ctx) (m 0) (m n) s := by
  have hruns : ∀ i, 1 ≤ i → i ≤ n → ∃ s, ((fun i => (arg i).stage) i).Run [] (ctx i) (m (i - 1)) (m (i + 1 - 1)) s := h
  obtain ⟨o₁, o₂, c₁, c₂, hall, hend, hout⟩ := Stage.stream_of_runs (m := fun i => m (i - 1)) hn hruns
  refine ⟨⟨c₂, n, n, none⟩, ⟨o₁, o₂, _, feeds_chain hall hn, ?_, hout⟩⟩
  exact (goes_finish hend hn).drains rfl

/-- Gives back a chunk byte by byte. -/
def bytewise : Filter (List UInt8) := fun q chunk =>
  match chunk with
  | none => return (none, q)
  | some x => return (some ((q ++ x).take 1), (q ++ x).drop 1)

/-- Keeps the chunks, and gives them back at the end as one. -/
def gather : Filter (List UInt8) := fun q chunk =>
  match chunk with
  | none => return (if q = [] then none else some q, [])
  | some x => return (some [], q ++ x)

theorem filter_chain_composes_gather :
    ∃ s, (filterChain (fun i => if i = 1 then gather else bytewise) 2).Run (.init fun _ => [])
      [[1, 2], [3]] [[1], [2], [3]] s := by
  have h₁ : gather.Run [] [[1, 2], [3]] [[1, 2, 3]] [] := by
    refine ⟨⟨[], [[1, 2, 3]], [1, 2, 3], ?_, ?_, rfl⟩⟩
    · exact Stage.Feeds.keep (t := [1, 2]) rfl (.keep rfl .nil)
    · exact .piece (t := []) rfl (by decide) (.stop rfl)
  have h₂ : bytewise.Run [] [[1, 2, 3]] [[1], [2], [3]] [] := by
    refine ⟨⟨[[1], [2], [3]], [], [], ?_, .stop rfl, rfl⟩⟩
    have hx : bytewise.stage.Drains [] (some []) [] (some [1, 2, 3]) [[1], [2], [3]] [] :=
      .piece (t := [2, 3]) rfl (by decide)
        (.piece (t := [3]) rfl (by decide) (.piece (t := []) rfl (by decide) (.stop rfl)))
    exact .cons hx .nil
  refine filter_chain_composes _ _ 2 (fun i => if i = 0 then [[1, 2], [3]] else if i = 1 then [[1, 2, 3]]
    else [[1], [2], [3]]) (by decide) ?_
  intro i hlo hhi
  obtain rfl | rfl : i = 1 ∨ i = 2 := by omega
  · exact ⟨_, h₁⟩
  · exact ⟨_, h₂⟩

/-! ## Sources -/

/-- A source gives these chunks, and then nil and perhaps an error. -/
inductive Source.Gives (src : Source α) (err : Option String) : α → List (List UInt8) → α → Prop
  | stop {s t : α} (h : src s = pure ((none, err), t)) : Gives src err s [] t
  | chunk {s t u : α} {p : List UInt8} {ps : List (List UInt8)} (h : src s = pure ((some p, none), t))
      (hps : Gives src err t ps u) : Gives src err s (p :: ps) u

section SourceChain

variable {src : Source α} {err : Option String} {a₀ a₁ : α} {g g₁ g' : γ} {out qs : List (List UInt8)} {q : List UInt8}
  {s s₁ : SourceChain α γ}

theorem Source.Gives.of_eq {σ : Type} {src : Source σ} {s s₁ s' : σ} (h : src.Gives err s₁ out s')
    (heq : src s = src s₁) : src.Gives err s out s' := by
  cases h with
  | stop h => exact .stop (heq.trans h)
  | chunk h hps => exact .chunk (heq.trans h) hps

/-- One round that eats. -/
theorem sourceChain_eats {z : Chunk} (h : f g y = pure (z, g₁)) :
    sourceChain src f ⟨a₀, g, true, y, some q⟩ =
      if z = some [] then
        if y = some [] then sourceChainLoop src f ⟨a₀, g₁, false, y, z⟩ else throw "filter returned \"\""
      else if z.isSome then pure ((z, none), ⟨a₀, g₁, true, y, z⟩)
      else if y.isSome then throw "filter returned inappropriate nil"
      else pure ((none, none), ⟨a₀, g₁, true, y, z⟩) := by
  show sourceChainLoop src f _ = _
  rw [sourceChainLoop_eq, if_pos rfl, h]
  rfl

/-- One round that feeds. -/
theorem sourceChain_feeds {z : Chunk} (hs : src a₀ = pure ((y, none), a₁)) (h : f g y = pure (z, g₁)) :
    sourceChain src f ⟨a₀, g, false, x, some q⟩ =
      if z = some [] then sourceChainLoop src f ⟨a₁, g₁, false, y, z⟩
      else if z.isSome then pure ((z, none), ⟨a₁, g₁, true, y.map fun _ => [], z⟩)
      else if y.isSome then throw "filter returned inappropriate nil"
      else pure ((none, none), ⟨a₁, g₁, false, y, z⟩) := by
  show sourceChainLoop src f _ = _
  rw [sourceChainLoop_eq, if_neg Bool.false_ne_true, hs]
  show (f g y >>= _) = _
  rw [h]
  rfl

/-- In the middle of what the filter makes of a chunk. -/
theorem sourceChain_eating (h : f.stage.Drains [] (some []) g x ps g₁) (hx : x = some [])
    (hrest : (sourceChain src f).Gives err ⟨a₀, g₁, false, some [], some []⟩ out s) :
    (sourceChain src f).Gives err ⟨a₀, g, true, some [], some q⟩ (ps ++ out) s := by
  induction h generalizing q with
  | stop h =>
    subst hx
    refine hrest.of_eq ?_
    rw [sourceChain_eats h]
    rfl
  | @piece g g₂ g₃ x p ps h hp _ ih =>
    subst hx
    refine .chunk ?_ (ih (q := p) rfl hrest)
    rw [sourceChain_eats h]
    exact if_neg fun e => hp (Option.some.inj e)

variable (src a₀ q) in
/-- In the middle of what the filter makes of the end. -/
theorem sourceChain_ending (h : f.stage.Drains [] none g x ps g₁) (hx : x = none) :
    ∃ s, (sourceChain src f).Gives none ⟨a₀, g, true, none, some q⟩ ps s := by
  induction h generalizing q with
  | stop h =>
    subst hx
    exact ⟨_, .stop (sourceChain_eats h)⟩
  | @piece g g₂ g₃ x p ps h hp _ ih =>
    subst hx
    obtain ⟨s, hs⟩ := ih p rfl
    refine ⟨s, .chunk ?_ hs⟩
    rw [sourceChain_eats h]
    exact if_neg fun e => hp (Option.some.inj e)

/-- **What a source with a filter gives**: what the filter makes of the chunks, and of the end
unless that is an error. -/
theorem sourceChain_gives {xs : List (List UInt8)} (hsrc : src.Gives err a₀ xs a₁)
    (hfeed : f.stage.Feeds [] g xs ps g₁) (hend : f.stage.Drains [] none g₁ none qs g') :
    ∃ s, (sourceChain src f).Gives err ⟨a₀, g, false, y, some q⟩ (ps ++ if err.isNone then qs else []) s := by
  induction hsrc generalizing g ps y q with
  | @stop a₀ a₁ h =>
    cases hfeed
    rw [List.nil_append]
    cases err with
    -- the error is returned at once, and the filter never gets its nil
    | some e =>
      refine ⟨_, .stop (t := ⟨a₁, g₁, false, none, some q⟩) ?_⟩
      show sourceChainLoop src f _ = _
      rw [sourceChainLoop_eq, if_neg Bool.false_ne_true, h]
      rfl
    | none =>
      cases hend with
      | stop hf => exact ⟨_, .stop (sourceChain_feeds h hf)⟩
      | @piece _ g₂ _ _ p ps hf hp hps =>
        obtain ⟨s, hs⟩ := sourceChain_ending src a₁ p hps rfl
        refine ⟨s, .chunk ?_ hs⟩
        rw [sourceChain_feeds h hf]
        exact if_neg fun e => hp (Option.some.inj e)
  | @chunk a₀ a₁ a₂ x xs h _ ih =>
    cases hfeed with
    | cons hx hxs =>
      rw [List.append_assoc]
      cases hx with
      -- nothing comes of the chunk: the loop asks the source again
      | stop hf =>
        obtain ⟨s, hs⟩ := ih hxs (y := some x) (q := [])
        refine ⟨s, hs.of_eq ?_⟩
        rw [sourceChain_feeds h hf]
        rfl
      | @piece _ g₃ _ _ p ps hf hp hps =>
        obtain ⟨s, hs⟩ := ih hxs (y := some []) (q := [])
        refine ⟨s, .chunk ?_ (sourceChain_eating (q := p) hps rfl hs)⟩
        rw [sourceChain_feeds h hf]
        exact if_neg fun e => hp (Option.some.inj e)

end SourceChain

section Sources

/-- A string is given in chunks that are not empty. -/
theorem sourceString_gives (s : List UInt8) :
    ∃ xs i, (sourceString s).Gives none 1 xs i ∧ xs.flatten = s ∧ [] ∉ xs := by
  suffices h : ∀ k, ∃ xs i, (sourceString s).Gives none (k + 1) xs i ∧ xs.flatten = s.drop k ∧ [] ∉ xs from h 0
  intro k
  induction hn : s.length - k using Nat.strong_induction_on generalizing k with
  | _ n ih =>
    have hcall : sourceString s (k + 1) = pure ((if (s.drop k).take BLOCKSIZE ≠ [] then
        some ((s.drop k).take BLOCKSIZE) else none, none), k + 1 + BLOCKSIZE) := rfl
    by_cases hk : s.length ≤ k
    · refine ⟨[], k + 1 + BLOCKSIZE, .stop ?_, (List.drop_eq_nil_of_le hk).symm, List.not_mem_nil⟩
      rw [hcall, List.drop_eq_nil_of_le hk, List.take_nil, if_neg (fun e => e rfl)]
    · have hb : 0 < BLOCKSIZE := by decide
      have hne : (s.drop k).take BLOCKSIZE ≠ [] := by
        rw [← List.length_pos_iff, List.length_take, List.length_drop]
        omega
      obtain ⟨xs, i, hxs, hflat, hmem⟩ := ih (s.length - (k + BLOCKSIZE)) (by omega) (k + BLOCKSIZE) rfl
      refine ⟨(s.drop k).take BLOCKSIZE :: xs, i, .chunk (hcall.trans ?_) hxs, ?_, ?_⟩
      · rw [if_pos hne, Nat.add_right_comm]
      · rw [List.flatten_cons, hflat, ← List.drop_drop, List.take_append_drop]
      · exact List.not_mem_cons_of_ne_of_not_mem hne.symm hmem

variable {src : Source α} {err : Option String}

/-- Sources in a row give what they give, one after the other. -/
theorem sourceCat_gives {l : List (Source α × α)} {xs : List (List (List UInt8))}
    (h : List.Forall₂ (fun p ys => ∃ a', p.1.Gives none p.2 ys a') l xs) :
    sourceCat.Gives none l xs.flatten [] := by
  induction h with
  | nil => exact .stop rfl
  | @cons p ys l xs hp _ ih =>
    obtain ⟨src, a⟩ := p
    obtain ⟨a', hp⟩ := hp
    rw [List.flatten_cons]
    dsimp only at hp
    induction hp with
    | stop h =>
      refine ih.of_eq ?_
      rw [sourceCat, h]
      rfl
    | chunk h _ ih' =>
      refine .chunk ?_ ih'
      rw [sourceCat, h]
      rfl

/-- Chunks that were put back are given first, the last one in front. -/
theorem sourceRewind_gives {a a' : α} {xs : List (List UInt8)} (h : src.Gives err a xs a')
    (t : List (List UInt8)) : Source.Gives (sourceRewind src none) err (t, a) (t ++ xs) ([], a') := by
  induction t with
  | nil =>
    induction h with
    | stop h =>
      refine .stop ?_
      rw [sourceRewind, h]
      rfl
    | chunk h _ ih =>
      refine .chunk ?_ ih
      rw [sourceRewind, h]
      rfl
  | cons p t ih => exact .chunk rfl ih

end Sources

/-! ## Sinks and pumps -/

/-- A sink accepts these chunks. -/
inductive Sink.Accepts (snk : Sink β) (err : Option String) : β → List (List UInt8) → β → Prop
  | nil {s : β} : Accepts snk err s [] s
  | cons {s s' s'' : β} {p : List UInt8} {ps : List (List UInt8)} {e : Option String}
      (h : snk s (some p) err = pure ((true, e), s')) (hps : Accepts snk err s' ps s'') : Accepts snk err s (p :: ps) s''

section Pump

variable {src : Source α} {snk : Sink β} {err e : Option String} {a₀ a₁ : α} {b b₁ b₂ : β} {g g₁ g' : γ}
  {xs out qs : List (List UInt8)} {ret : Bool}

/-- **What a pump does**: the chunks of the source go to the sink, and its end too. -/
theorem pumpAll_eq (hsrc : src.Gives err a₀ xs a₁) (hsnk : snk.Accepts none b xs b₁)
    (hend : snk b₁ none err = pure ((ret, e), b₂)) :
    pumpAll src snk (a₀, b) = pure (((err.or e).isNone, err.or e), (a₁, b₂)) := by
  induction hsrc generalizing b with
  | stop h =>
    cases hsnk
    rw [pumpAll, pumpLoop_eq, pumpStep, h]
    show (snk b₁ none err >>= _) >>= _ = _
    rw [hend]
    cases he : err.or e <;> simp [he]
  | @chunk a a' a'' p ps h _ ih =>
    cases hsnk with
    | cons hb hbs =>
      rw [pumpAll, pumpLoop_eq, pumpStep, h]
      show (snk b (some p) none >>= _) >>= _ = _
      rw [hb]
      exact ih hbs

theorem Sink.Accepts.append {ys : List (List UInt8)} (h : snk.Accepts err b xs b₁) (h' : snk.Accepts err b₁ ys b₂) :
    snk.Accepts err b (xs ++ ys) b₂ := by
  induction h with
  | nil => exact h'
  | cons hb _ ih => exact .cons hb (ih h')

theorem Sink.Accepts.split {ys : List (List UInt8)} (h : snk.Accepts err b (xs ++ ys) b₂) :
    ∃ b₁, snk.Accepts err b xs b₁ ∧ snk.Accepts err b₁ ys b₂ := by
  induction xs generalizing b with
  | nil => exact ⟨b, .nil, h⟩
  | cons x xs ih =>
    cases h with
    | cons hb hbs =>
      obtain ⟨b₁, h₁, h₂⟩ := ih hbs
      exact ⟨b₁, .cons hb h₁, h₂⟩

theorem sinkTable_accepts (t : List (List UInt8)) : sinkTable.Accepts err t xs (t ++ xs) := by
  induction xs generalizing t with
  | nil =>
    rw [List.append_nil]
    exact .nil
  | cons x xs ih =>
    refine .cons rfl ?_
    rw [List.append_cons]
    exact ih _

theorem sinkTable_end (t : List (List UInt8)) : sinkTable t none err = pure ((true, none), t) := by
  rw [sinkTable, Option.toList, List.append_nil]

/-- One round of a sink with a filter. -/
theorem sinkChainLoop_round {done : Chunk} (h : snk b y err = pure ((ret, e), b₁)) :
    sinkChainLoop f snk done err y (g, b) =
      if ¬ ret then pure ((false, e), (g, b₁))
      else if y = done then pure ((true, none), (g, b₁))
      else f g done >>= fun r => sinkChainLoop f snk done err r.1 (r.2, b₁) := by
  rw [sinkChainLoop_eq]
  show (snk b y err >>= _) = _
  rw [h]
  rfl

/-- A chunk for a sink with a filter: what the filter makes of it, and an empty chunk. -/
theorem sinkChainLoop_feed {x : Chunk} (h : f.stage.Drains [] (some []) g x out g₁)
    (hsnk : snk.Accepts err b (out ++ [[]]) b₁) :
    (f g x >>= fun r => sinkChainLoop f snk (some []) err r.1 (r.2, b)) =
      pure ((true, none), (g₁, b₁)) := by
  induction h generalizing b with
  -- the empty chunk that the filter returns is passed on too
  | stop h =>
    cases hsnk with
    | cons hb hbs =>
      cases hbs
      rw [h]
      show sinkChainLoop f snk (some []) err (some []) (_, b) = _
      rw [sinkChainLoop_round hb]
      rfl
  | @piece g g₂ g₃ x p ps h hp _ ih =>
    cases hsnk with
    | cons hb hbs =>
      rw [h]
      show sinkChainLoop f snk (some []) err (some p) (g₂, b) = _
      rw [sinkChainLoop_round hb, if_neg (not_not_intro rfl), if_neg (fun e => hp (Option.some.inj e))]
      exact ih hbs

/-- The end for a sink with a filter. -/
theorem sinkChainLoop_end {x : Chunk} (h : f.stage.Drains [] none g x out g₁) (hsnk : snk.Accepts err b out b₁)
    (hend : snk b₁ none err = pure ((ret, e), b₂)) :
    (f g x >>= fun r => sinkChainLoop f snk none err r.1 (r.2, b)) =
      pure ((ret, if ret then none else e), (g₁, b₂)) := by
  induction h generalizing b with
  | stop h =>
    cases hsnk
    rw [h]
    show sinkChainLoop f snk none err none (_, b₁) = _
    rw [sinkChainLoop_round hend]
    cases ret <;> rfl
  | @piece g g₂ g₃ x p ps h hp _ ih =>
    cases hsnk with
    | cons hb hbs =>
      rw [h]
      show sinkChainLoop f snk none err (some p) (g₂, b) = _
      rw [sinkChainLoop_round hb, if_neg (not_not_intro rfl), if_neg (Option.some_ne_none p)]
      exact ih hbs

/-- A chunk and an empty chunk behind what the filter makes of it. -/
theorem sinkChain_accepts_cons {x : List UInt8} {g₂ : γ} (hx : f.stage.Drains [] (some []) g (some x) out g₂)
    (hne : x ≠ []) (hb : snk.Accepts none b (out ++ [[]]) b₂)
    (hxs : (sinkChain f snk).Accepts none (g₂, b₂) xs (g₁, b₁)) :
    (sinkChain f snk).Accepts none (g, b) (x :: xs) (g₁, b₁) := by
  refine .cons (e := none) ?_ hxs
  exact (if_pos fun e => hne (Option.some.inj e)).trans (sinkChainLoop_feed hx hb)

variable (snk) in
/-- **What a sink with a filter passes on**: what the filter makes of the chunks, with an empty
chunk after each. -/
theorem sinkChain_accepts (h : f.stage.Feeds [] g xs out g₁) (hxs : [] ∉ xs) :
    ∃ zs, zs.filter (· ≠ []) = out ∧
      ∀ b b₁, snk.Accepts none b zs b₁ → (sinkChain f snk).Accepts none (g, b) xs (g₁, b₁) := by
  induction h with
  | nil =>
    refine ⟨[], rfl, ?_⟩
    intro b b₁ hb
    cases hb
    exact .nil
  | @cons g g₂ g₃ x xs ps qs hx _ ih =>
    obtain ⟨zs, hzs, hall⟩ := ih fun hmem => hxs (List.mem_cons_of_mem x hmem)
    refine ⟨ps ++ [[]] ++ zs, ?_, ?_⟩
    · rw [List.filter_append, List.filter_append, hzs]
      have hps : ps.filter (· ≠ []) = ps :=
        List.filter_eq_self.2 fun p hp => decide_eq_true fun e => hx.ne_empty (e ▸ hp)
      rw [hps]
      simp
    · intro b b₁ hb
      obtain ⟨b₂, h₁, h₂⟩ := hb.split
      exact sinkChain_accepts_cons hx (fun e => hxs (e ▸ List.mem_cons_self)) h₁ (hall b₂ b₁ h₂)

/-- The end, for a sink with a filter behind which there is a sink that takes it. -/
theorem sinkChain_end (h : f.stage.Drains [] none g none out g₁) (hsnk : snk.Accepts err b out b₁)
    (hend : snk b₁ none err = pure ((ret, e), b₂)) :
    sinkChain f snk (g, b) none err = pure ((ret, if ret then none else e), (g₁, b₂)) :=
  (if_pos (by simp)).trans (sinkChainLoop_end h hsnk hend)

end Pump

/-- **Filtering at the source and filtering at the sink.** Pumped through a filter, the chunks of a
source come out as what the filter makes of them. When the source ends with an error, a filter at
the source is not told, and what it still holds is lost; a filter at the sink is. (An empty chunk
of the source never reaches a filter at the sink.) -/
theorem pump_filtered {src : Source α} {f : Filter γ} {err : Option String} {a a' : α} {g g₁ g' : γ}
    {xs ps qs : List (List UInt8)} (hsrc : src.Gives err a xs a')
    (hfeed : f.stage.Feeds [] g xs ps g₁) (hend : f.stage.Drains [] none g₁ none qs g') :
    (∃ s, pumpAll (sourceChain src f) sinkTable (.init a g, []) =
        pure ((err.isNone, err), (s, ps ++ if err.isNone then qs else []))) ∧
      ([] ∉ xs → ∃ zs, zs.filter (· ≠ []) = ps ++ qs ∧
        pumpAll src (sinkChain f sinkTable) (a, (g, [])) = pure ((err.isNone, err), (a', (g', zs)))) := by
  refine ⟨?_, fun hxs => ?_⟩
  · obtain ⟨s, hs⟩ := sourceChain_gives (y := some []) (q := []) hsrc hfeed hend
    refine ⟨s, (pumpAll_eq hs (sinkTable_accepts []) (sinkTable_end _)).trans ?_⟩
    rw [Option.or_none, List.nil_append]
  · obtain ⟨zs, hzs, hall⟩ := sinkChain_accepts sinkTable hfeed hxs
    refine ⟨zs ++ qs, ?_, ?_⟩
    · rw [List.filter_append, hzs]
      congr 1
      exact List.filter_eq_self.2 fun p hp => decide_eq_true fun e => hend.ne_empty (e ▸ hp)
    · have hacc := hall [] zs (sinkTable_accepts [])
      have htable : sinkTable (zs ++ qs) none err = pure ((true, none), zs ++ qs) := sinkTable_end _
      have hlast := sinkChain_end hend (sinkTable_accepts zs) htable
      refine (pumpAll_eq hsrc hacc hlast).trans ?_
      rw [if_pos rfl, Option.or_none]

/-- A source that fails behind its first chunk: nothing arrives, or what the filter held. -/
theorem pump_filtered_lost :
    let src : Source Bool := fun first =>
      return ((if first then some [1] else none, if first then none else some "closed"), false)
    (∃ s, pumpAll (sourceChain src gather) sinkTable (.init true [], []) = pure ((false, some "closed"), (s, []))) ∧
      ∃ zs, zs.filter (· ≠ []) = [[1]] ∧
        pumpAll src (sinkChain gather sinkTable) (true, ([], [])) =
          pure ((false, some "closed"), (false, ([], zs))) := by
  intro src
  have hsrc : src.Gives (some "closed") true [[1]] false := .chunk (t := false) rfl (.stop rfl)
  have hfeed : gather.stage.Feeds [] [] [[1]] [] [1] := .keep rfl .nil
  have hend : gather.stage.Drains [] none [1] none [[1]] [] := .piece (t := []) rfl (by decide) (.stop rfl)
  obtain ⟨hsource, hsink⟩ := pump_filtered hsrc hfeed hend
  exact ⟨hsource, hsink (by decide)⟩

end Qsf
