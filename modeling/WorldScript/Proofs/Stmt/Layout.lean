import WorldScript.Proofs.Stmt.Execution

/-! # Where the code of actions stands

The code of an action stands between two positions of a chunk, and its jumps go to the positions that
its construct asks for.  Code that is laid out like this does what the action says.
-/

namespace WorldScript

def Chunk.Has (k : Chunk) (p : Nat) (i : Instr Nat) : Prop := ∃ e, k.entries[p]? = some e ∧ e.instr = i

theorem Chunk.Holds.has {k : Chunk} {p : Nat} {i : Instr Label} {j : Instr Nat} {rest : List (Instr Label)}
    (h : k.Holds resolve p (i :: rest)) (hij : i.retarget resolve = .ok j) : k.Has p j := by
  obtain ⟨e, he, hr⟩ := h.head
  exact ⟨e, he, Except.ok.inj (hr.symm.trans hij)⟩

theorem Instr.retarget_jump {p : Nat} (h : resolve l = .ok p) :
    (Instr.jump l).retarget resolve = .ok (.jump p) := by
  rw [Instr.retarget, h]
  rfl

theorem Instr.retarget_jumpIfFalse {p : Nat} (h : resolve l = .ok p) :
    (Instr.jumpIfFalse l).retarget resolve = .ok (.jumpIfFalse p) := by
  rw [Instr.retarget, h]
  rfl

def Chunk.ValueAt (w : World) (k : Chunk) (e : Expr) (p q : Nat) : Prop :=
  ∀ (fuel : Nat) (s : List Value) (cs : List Pending) (F : Frame),
    Follows fuel ((F.config k p s cs).course w) (fun v G => (G.config k q (v :: s) cs).course w)
      (e.eval w fuel cs.length F)

def Chunk.EffectAt (w : World) (k : Chunk) (es : List Expr) (p q : Nat) : Prop :=
  ∀ (fuel : Nat) (s : List Value) (cs : List Pending) (F : Frame),
    Follows fuel ((F.config k p s cs).course w) (fun _ G => (G.config k q s cs).course w)
      (Expr.effectAll w fuel cs.length es F)

/-- From `p` to `q` a loop tests whether to take a turn; if not, it goes to `stop`. -/
def Chunk.TestAt (w : World) (k : Chunk) (test : Option Expr) (p q stop : Nat) : Prop :=
  match test with
  | none => q = p
  | some e => ∃ m, k.ValueAt w e p m ∧ k.Has m (.jumpIfFalse stop) ∧ q = m + 1

def Chunk.ReturnsAt (k : Chunk) (returns : Option Ty) (q : Nat) : Prop :=
  match returns with
  | none => k.Has q .ret
  | some ty => k.Has q (.push ty.defaultValue) ∧ k.Has (q + 1) .retValue

structure LoopEnds where
  again : Nat
  stop : Nat

inductive Action.Laid (w : World) (k : Chunk) : LoopEnds → Action → Nat → Nat → Prop
  | skip {ends : LoopEnds} {p : Nat} : Laid w k ends .skip p p
  | seq {ends : LoopEnds} {a b : Action} {p q r : Nat} (ha : Laid w k ends a p q) (hb : Laid w k ends b q r) :
      Laid w k ends (.seq a b) p r
  | effects {ends : LoopEnds} {es : List Expr} {p q : Nat} (he : k.EffectAt w es p q) :
      Laid w k ends (.effects es) p q
  | init {ends : LoopEnds} {slot : Nat} {e : Expr} {p q : Nat} (he : k.ValueAt w e p q)
      (hs : k.Has q (.store (.loc slot))) : Laid w k ends (.init slot e) p (q + 1)
  | ret {ends : LoopEnds} {p : Nat} (hr : k.Has p .ret) : Laid w k ends (.ret none) p (p + 1)
  | retValue {ends : LoopEnds} {e : Expr} {p q : Nat} (he : k.ValueAt w e p q) (hr : k.Has q .retValue) :
      Laid w k ends (.ret (some e)) p (q + 1)
  | changeState {ends : LoopEnds} {index p : Nat} (hc : k.Has p (.changeState index)) :
      Laid w k ends (.changeState index) p (p + 1)
  | breakLoop {ends : LoopEnds} {p : Nat} (hj : k.Has p (.jump ends.stop)) :
    Laid w k ends .breakLoop p (p + 1)
  | continueLoop {ends : LoopEnds} {p : Nat} (hj : k.Has p (.jump ends.again)) :
      Laid w k ends .continueLoop p (p + 1)
  | oneArm {ends : LoopEnds} {test : Expr} {yes : Action} {p q r : Nat} (ht : k.ValueAt w test p q)
      (hj : k.Has q (.jumpIfFalse r)) (hy : Laid w k ends yes (q + 1) r) :
      Laid w k ends (.cond test yes .skip) p r
  | twoArms {ends : LoopEnds} {test : Expr} {yes no : Action} {p q m r : Nat} (ht : k.ValueAt w test p q)
      (hj : k.Has q (.jumpIfFalse (m + 1))) (hy : Laid w k ends yes (q + 1) m) (hm : k.Has m (.jump r))
      (hn : Laid w k ends no (m + 1) r) : Laid w k ends (.cond test yes no) p r
  | whileLoop {ends : LoopEnds} {test : Expr} {body : Action} {p q m : Nat} (ht : k.ValueAt w test p q)
      (hj : k.Has q (.jumpIfFalse (m + 1))) (hb : Laid w k ⟨p, m + 1⟩ body (q + 1) m)
        (hm : k.Has m (.jump p)) :
      Laid w k ends (.whileLoop test body) p (m + 1)
  | forLoop {ends : LoopEnds} {before step : List Expr} {test : Option Expr} {body : Action}
      {p top first again back : Nat} (hi : k.EffectAt w before p top)
        (ht : k.TestAt w test top first (back + 1))
      (hb : Laid w k ⟨again, back + 1⟩ body first again) (hs : k.EffectAt w step again back)
      (hm : k.Has back (.jump top)) : Laid w k ends (.forLoop before test step body) p (back + 1)
  | doLoop {ends : LoopEnds} {body : Action} {test : Expr} {p m q : Nat} (hb : Laid w k ⟨m, q + 2⟩ body p m)
      (ht : k.ValueAt w test m q) (hj : k.Has q (.jumpIfFalse (q + 2))) (hm : k.Has (q + 1) (.jump p)) :
      Laid w k ends (.doLoop body test) p (q + 2)

/-- What stands after an arm that ends at `m`: nothing, or a jump over what is done `otherwise`. -/
inductive Action.LaidAfter (w : World) (k : Chunk) (ends : LoopEnds) : Action → Nat → Nat → Nat → Prop
  | nothing {m : Nat} : LaidAfter w k ends .skip m m m
  | another {no : Action} {m r : Nat} (hm : k.Has m (.jump r)) (hn : no.Laid w k ends (m + 1) r) :
      LaidAfter w k ends no m (m + 1) r

def Flow.landing (w : World) (k : Chunk) (ends : LoopEnds) (q : Nat) (s : List Value) (cs : List Pending) :
    Flow → Frame → Course
  | .normal, G => (G.config k q s cs).course w
  | .broke, G => (G.config k ends.stop s cs).course w
  | .continued, G => (G.config k ends.again s cs).course w
  | .ended exit, G => ((G.config k q s cs).leave exit).course w

variable {w : World} {k : Chunk} {fuel p q : Nat} {s : List Value} {cs : List Pending} {F : Frame}
  {resolve : Label → Except Label Nat} {l : Label} {ends : LoopEnds} {r : Nat}

theorem Action.Laid.cond {test : Expr} {yes no : Action} {m otherwise : Nat}
    (ht : k.TestAt w (some test) p q otherwise) (hy : yes.Laid w k ends q m)
    (hn : no.LaidAfter w k ends m otherwise r) : (Action.cond test yes no).Laid w k ends p r := by
  obtain ⟨first, hv, hj, rfl⟩ := ht
  cases hn with
  | nothing => exact .oneArm hv hj hy
  | another hm hn => exact .twoArms hv hj hy hm hn

theorem Chunk.EffectAt.append {es more : List Expr} (h : k.EffectAt w es p q) (h' : k.EffectAt w more q r) :
    k.EffectAt w (es ++ more) p r := by
  intro fuel s cs F
  rw [Expr.effectAll_append]
  exact (h fuel s cs F).bind fun _ G _ => h' fuel s cs G

theorem Chunk.Has.costs {i : Instr Nat} (h : k.Has p i) :
    Costs 1 ((F.config k p s cs).course w) (((F.config k (p + 1) s cs).execute w i).course w) := by
  obtain ⟨e, he, rfl⟩ := h
  exact .instr he

theorem Chunk.Has.jump {target : Nat} (h : k.Has p (.jump target)) :
    Costs 1 ((F.config k p s cs).course w) ((F.config k target s cs).course w) := h.costs

theorem Chunk.Has.store {x : Var} {v : Value} (h : k.Has p (.store x)) :
    Follows fuel ((F.config k p (v :: s) cs).course w) (fun _ G => (G.config k (p + 1) s cs).course w)
      ((Place.var x).write v F) := by
  have hstep : Costs 1 ((F.config k p (v :: s) cs).course w)
      (((F.config k (p + 1) (v :: s) cs).execute w (.store x)).course w) := h.costs
  rw [Config.execute_store] at hstep
  refine FollowsBy.behind ?_ hstep
  change Follows fuel _ _ ((Eval.lift (F.write x v) >>= set) F)
  cases F.write x v with
  | ok G => exact .pure (.refl _)
  | error f => exact ⟨0, .refl _⟩

/-- A condition with the jump after it, which takes at least one instruction. -/
theorem Chunk.ValueAt.test {e : Expr} (h : k.ValueAt w e p q) (hj : k.Has q (.jumpIfFalse r)) :
    FollowsBy fuel (fun _ => 1) ((F.config k p s cs).course w)
      (fun b G => (G.config k (if b then q + 1 else r) s cs).course w) (e.holds w fuel cs.length F) := by
  refine (h fuel s cs F).bind fun v G _ => ?_
  have hstep : Costs 1 ((G.config k q (v :: s) cs).course w)
      (((G.config k (q + 1) (v :: s) cs).execute w (.jumpIfFalse r)).course w) := hj.costs
  rw [Config.execute_jumpIfFalse] at hstep
  exact .pure hstep

theorem Chunk.TestAt.test {test : Option Expr} {stop : Nat} (h : k.TestAt w test p q stop) (fuel : Nat)
    (s : List Value) (cs : List Pending) (F : Frame) :
    Follows fuel ((F.config k p s cs).course w) (fun b G =>
      (G.config k (if b then q else stop) s cs).course w)
      (Expr.holds? w fuel cs.length test F) := by
  cases test with
  | none =>
    obtain rfl : q = p := h
    exact .pure (.refl _)
  | some e =>
    obtain ⟨m, he, hj, rfl⟩ := h
    exact (he.test hj).mono (Nat.le_refl _) fun _ => Nat.zero_le _

def turnCost : Option Flow → Nat
  | none => 1
  | some _ => 0

theorem FollowsBy.turn {whole : Course} {after : Option Flow → Frame → Course}
    {r : EStateM.Result Halt Frame (Option Flow)} (h : FollowsBy fuel (fun _ => 0 + 1) whole after r) :
    FollowsBy fuel turnCost whole after r := by
  refine h.mono (Nat.le_refl _) fun r => ?_
  cases r with
  | none => exact Nat.le_refl _
  | some flow => exact Nat.zero_le _

def Flow.afterTurn (top : Frame → Course) (after : Flow → Frame → Course) : Option Flow → Frame → Course
  | none, G => top G
  | some flow, G => after flow G

/-- A loop each turn of which takes at least one instruction when another one follows. -/
theorem turns_follow {once : Eval (Option Flow)} (top : Frame → Course) {after : Flow → Frame → Course}
    (h : ∀ F, FollowsBy fuel turnCost (top F) (Flow.afterTurn top after) (once F)) (left : Nat)
    (hl : left ≤ fuel) :
    ∀ F, Follows left (top F) after (Flow.turns once left F) := by
  induction left with
  | zero =>
    intro F n hn
    omega
  | succ left ih =>
    intro F
    have hturn := h F
    rw [Flow.turns]
    cases hm : once F with
    | ok r G =>
      rw [hm] at hturn
      rw [Eval.bind_of_ok hm]
      obtain ⟨j, hj, hc⟩ := hturn
      cases r with
      | none =>
        have hrest : Follows left (top G) after (Flow.turns once left G) := ih (by omega) G
        have hj : 1 ≤ j := hj
        exact (hrest.prepend hc).mono (by omega) fun _ => Nat.zero_le _
      | some flow => exact ⟨j, Nat.zero_le _, hc⟩
    | error e G =>
      rw [hm] at hturn
      rw [Eval.bind_of_error hm]
      match e, hturn with
      | .fault _, h => exact h
      | .exhausted, h => exact fun n hn => h n (by omega)

/-- After the body of a loop the turn goes on from where the body ended or from where it continues. -/
theorem afterBody_follows {top : Frame → Course} {inner : LoopEnds} {rest : Eval (Option Flow)}
    {least : Option Flow → Nat} {flow : Flow} (hl : ∀ flow, least (some flow) = 0)
    (hnormal : FollowsBy fuel least ((F.config k q s cs).course w)
      (Flow.afterTurn top (Flow.landing w k ends inner.stop s cs)) (rest F))
    (hagain : FollowsBy fuel least ((F.config k inner.again s cs).course w)
      (Flow.afterTurn top (Flow.landing w k ends inner.stop s cs)) (rest F)) :
    FollowsBy fuel least (Flow.landing w k inner q s cs flow F)
      (Flow.afterTurn top (Flow.landing w k ends inner.stop s cs)) (flow.afterBody rest F) := by
  cases flow with
  | normal => exact hnormal
  | continued => exact hagain
  | broke => exact ⟨0, Nat.le_of_eq (hl _), .refl _⟩
  | ended exit => exact ⟨0, Nat.le_of_eq (hl _), .refl _⟩

namespace Action

variable {a : Action}

/-- Code that is laid out for an action does what the action says. -/
theorem Laid.follows {ends : LoopEnds} (h : a.Laid w k ends p q) (fuel : Nat) (s : List Value)
    (cs : List Pending) :
    ∀ F, Follows fuel ((F.config k p s cs).course w) (Flow.landing w k ends q s cs)
      (a.exec w fuel cs.length F) := by
  induction h with
  | skip =>
    intro F
    exact .pure (.refl _)
  | seq _ _ iha ihb =>
    intro F
    rw [exec]
    refine (iha F).bind fun flow G _ => ?_
    cases flow with
    | normal => exact ihb G
    | broke => exact .pure (.refl _)
    | continued => exact .pure (.refl _)
    | ended exit => exact .pure (.refl _)
  | effects he =>
    intro F
    rw [exec]
    exact (he fuel s cs F).bind fun _ G _ => .pure (.refl _)
  | init he hs =>
    intro F
    rw [exec]
    refine (he fuel s cs F).bind fun v G _ => ?_
    exact hs.store.bind fun _ G _ => .pure (.refl _)
  | ret hr =>
    intro F
    exact ⟨1, Nat.zero_le _, hr.costs⟩
  | retValue he hr =>
    intro F
    rw [exec]
    refine (he fuel s cs F).bind fun v G _ => ?_
    exact ⟨1, Nat.zero_le _, hr.costs⟩
  | changeState hc =>
    intro F
    exact ⟨1, Nat.zero_le _, hc.costs⟩
  | breakLoop hj =>
    intro F
    exact ⟨1, Nat.zero_le _, hj.jump⟩
  | continueLoop hj =>
    intro F
    exact ⟨1, Nat.zero_le _, hj.jump⟩
  | oneArm ht hj _ ih =>
    intro F
    rw [exec]
    refine (ht.test hj).bind fun b G _ => ?_
    cases b with
    | true => exact ih G
    | false => exact .pure (.refl _)
  | twoArms ht hj _ hm _ ihy ihn =>
    intro F
    rw [exec]
    refine (ht.test hj).bind fun b G _ => ?_
    cases b with
    | true =>
      refine (ihy G).append fun flow H => ?_
      cases flow with
      | normal => exact ⟨1, hm.jump⟩
      | broke => exact ⟨0, .refl _⟩
      | continued => exact ⟨0, .refl _⟩
      | ended exit => exact ⟨0, .refl _⟩
    | false => exact ihn G
  | whileLoop ht hj _ hm ih =>
    rw [exec]
    refine turns_follow (fun F => (F.config k _ s cs).course w) (fun F => ?_) fuel (Nat.le_refl _)
    refine FollowsBy.turn ((ht.test hj).bindBy fun b G _ => ?_)
    cases b with
    | false => exact .pure (.refl _)
    | true =>
      refine (ih G).bind fun flow H _ => afterBody_follows (fun _ => rfl) ?_ ?_
      · exact ⟨1, Nat.zero_le _, hm.jump⟩
      · exact .pure (.refl _)
  | forLoop hi ht _ hs hm ih =>
    intro F
    rw [exec]
    refine (hi fuel s cs F).bind fun _ G _ => ?_
    refine turns_follow (fun F => (F.config k _ s cs).course w) (fun F => ?_) fuel (Nat.le_refl _) G
    refine (ht.test fuel s cs F).bind fun b G _ => ?_
    cases b with
    | false => exact .pure (.refl _)
    | true =>
      refine (ih G).bind fun flow H _ => afterBody_follows (fun _ => rfl) ?_ ?_
      · exact (hs fuel s cs H).bind fun _ I _ => ⟨1, Nat.le_refl _, hm.jump⟩
      · exact (hs fuel s cs H).bind fun _ I _ => ⟨1, Nat.le_refl _, hm.jump⟩
  | @doLoop ends body test p m q _ ht hj hm ih =>
    rw [exec]
    refine turns_follow (fun F => (F.config k _ s cs).course w) (fun F => ?_) fuel (Nat.le_refl _)
    have htest : ∀ G : Frame, FollowsBy fuel turnCost ((G.config k m s cs).course w)
        (Flow.afterTurn (fun G => (G.config k p s cs).course w) (Flow.landing w k ends (q + 2) s cs))
        (Flow.goOnIf (test.holds w fuel cs.length) G) := by
      intro G
      refine FollowsBy.turn ((ht.test hj).bindBy fun b H _ => ?_)
      cases b with
      | false => exact .pure (.refl _)
      | true => exact ⟨1, Nat.zero_le _, hm.jump⟩
    exact (ih F).bind fun flow H _ => afterBody_follows (fun _ => rfl) (htest H) (htest H)

/-- Code that is laid out for a whole body, with the return at its end. -/
theorem Laid.execBody_follows {returns : Option Ty} (h : a.Laid w k ⟨q, q⟩ p q) (hr : k.ReturnsAt returns q)
    (fuel : Nat) (s : List Value) (cs : List Pending) (F : Frame) :
    Follows fuel ((F.config k p s cs).course w) (fun exit G => ((G.config k q s cs).leave exit).course w)
      (a.execBody w fuel cs.length returns F) := by
  have hend : ∀ G : Frame, ∃ j, Costs j ((G.config k q s cs).course w)
      (((G.config k q s cs).leave (.ret (returns.map Ty.defaultValue))).course w) := by
    intro G
    cases returns with
    | none => exact ⟨1, hr.costs⟩
    | some ty =>
      have hpush : Costs 1 ((G.config k q s cs).course w)
          ((G.config k (q + 1) (ty.defaultValue :: s) cs).course w) := hr.1.costs
      exact ⟨1 + 1, hpush.trans hr.2.costs⟩
  refine (h.follows fuel s cs F).bind fun flow G _ => ?_
  obtain ⟨j, hj⟩ := hend G
  cases flow with
  | normal => exact ⟨j, Nat.zero_le _, hj⟩
  | broke => exact ⟨j, Nat.zero_le _, hj⟩
  | continued => exact ⟨j, Nat.zero_le _, hj⟩
  | ended exit => exact .pure (.refl _)

end Action

end WorldScript
