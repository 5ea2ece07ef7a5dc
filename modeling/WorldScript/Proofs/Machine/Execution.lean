import WorldScript.Proofs.Machine.Instruction

/-! # Calls as nested work

The machine keeps its callers in a list and takes all instructions from one budget.  For a direct account
of what code means, a call is a single step of its caller instead: the body of the callee is carried out
to its end, with its own locals.  Such an account has fuel of its own, which bounds how far each body is
followed; a run follows an account if it does the same with every budget that is large enough, and if it
hits the instruction limit where the account runs out of fuel.
-/

namespace WorldScript

inductive Halt where
  | fault (f : Fault)
  | exhausted
  /-- What is asked for has no meaning. -/
  | stuck

abbrev Eval := EStateM Halt Frame

namespace Eval

variable {α : Type} {m : Eval α} {F G : Frame} {a : α} {β : Type}

def lift (r : Except Fault α) : Eval α :=
  match r with
  | .ok a => pure a
  | .error f => throw (.fault f)

def within (locals : Array Value) (m : Eval α) : Eval α := fun F =>
  match m ⟨F.store, locals⟩ with
  | .ok a G => .ok a ⟨G.store, F.locals⟩
  | .error h G => .error h ⟨G.store, F.locals⟩

theorem within_ok {locals : Array Value} (h : within locals m F = .ok a G) : G.locals = F.locals := by
  unfold within at h
  split at h
  · cases h
    rfl
  · cases h

theorem bind_of_ok {g : α → Eval β} (h : m F = .ok a G) : (m >>= g) F = g a G := by
  change EStateM.bind m g F = g a G
  unfold EStateM.bind
  rw [h]

theorem bind_of_error {g : α → Eval β} {e : Halt} (h : m F = .error e G) : (m >>= g) F = .error e G := by
  change EStateM.bind m g F = .error e G
  unfold EStateM.bind
  rw [h]

end Eval

def HostFunction.call (f : HostFunction) (args : List Value) : Eval (Option Value) := fun F =>
  match f.impl F.store.host args with
  | (.error problem, host) => .error (.fault (.host problem)) (F.afterHost f host)
  | (.ok value, host) => .ok (f.result value) (F.afterHost f host)

def ScriptFunction.call (body : Chunk → Eval Exit) (depth : Nat) (f : ScriptFunction Chunk)
    (args : List Value) : Eval (Option Value) :=
  if maxCallDepth ≤ depth then throw (.fault .callDepth)
  else match Activation.bind f.code.locals args with
    | .error problem => throw (.fault problem)
    | .ok locals => do
      match ← Eval.within locals.toArray (body f.code) with
      | .ret value => return f.signature.returns.map fun ty => value.getD ty.defaultValue
      | .changeState _ => throw (.fault (.functionChangedState f.signature.name))

def World.call (w : World) (body : Chunk → Eval Exit) (depth : Nat) (callee : Callee) (args : List Value) :
    Eval (Option Value) :=
  match callee with
  | .host id =>
    match w.registry.functions[id]? with
    | some f => f.call args
    | none => throw (.fault (.noFunction id))
  | .script index =>
    match w.program.functions[index]? with
    | some f => f.call body depth args
    | none => throw (.fault (.noFunction index))

/-- Code from a position on, with calls as single steps.  `depth` counts the callers. -/
def Chunk.exec (w : World) (fuel depth : Nat) (k : Chunk) (n : Nat) (s : List Value) : Eval Exit :=
  match k.entries[n]? with
  | none => pure (.ret none)
  | some e =>
    match fuel with
    | 0 => throw .exhausted
    | fuel + 1 =>
      match e.instr with
      | .call callee count =>
        match takeTop [] count s with
        | none => throw (.fault .stackUnderflow)
        | some (args, below) => do
          let value ← w.call (fun c => c.exec w fuel (depth + 1) 0 []) depth callee args
          k.exec w fuel depth (n + 1) (value.toList ++ below)
      | i => fun F =>
        match (F.config k (n + 1) s []).execute w i with
        | .next c =>
          c.active.chunk.exec w fuel depth c.active.position c.active.stack ⟨c.store, c.active.locals⟩
        | .done ending store => .ok ending.exit ⟨store, ending.locals⟩
        | .fault f store => .error (.fault f) ⟨store, F.locals⟩

def World.callToEnd (w : World) (fuel depth : Nat) : Callee → List Value → Eval (Option Value) :=
  w.call (fun c => c.exec w fuel (depth + 1) 0 []) depth

abbrev Course := Nat → RunResult

def Config.course (w : World) (c : Config) : Course := fun n => run w n c

def Transition.course (w : World) : Transition → Course
  | .next c => c.course w
  | .done ending store => fun n => ⟨.ok ending, store, n⟩
  | .fault f store => fun n => ⟨.error f, store, n⟩

/-- `whole` carries out `k` instructions and then goes on as `rest`. -/
structure Costs (k : Nat) (whole rest : Course) : Prop where
  enough : ∀ n, whole (n + k) = rest n
  short : ∀ n, n < k → (whole n).outcome = .error .instructionLimit

namespace Costs

variable {j k n : Nat} {whole middle rest : Course} {w : World} {F : Frame} {c : Chunk} {s : List Value}
  {cs : List Pending}

theorem refl (whole : Course) : Costs 0 whole whole := by
  refine ⟨fun n => rfl, ?_⟩
  intro n h
  omega

theorem trans (h : Costs j whole middle) (h' : Costs k middle rest) : Costs (k + j) whole rest := by
  constructor
  · intro n
    rw [← Nat.add_assoc, h.enough, h'.enough]
  · intro n hn
    by_cases hj : n < j
    · exact h.short n hj
    · obtain ⟨m, rfl⟩ : ∃ m, n = m + j := ⟨n - j, by omega⟩
      rw [h.enough]
      exact h'.short m (by omega)

theorem instr {e : Entry} (he : c.entries[n]? = some e) :
    Costs 1 ((F.config c n s cs).course w) (((F.config c (n + 1) s cs).execute w e.instr).course w) := by
  have hf : (⟨c, n, s, F.locals⟩ : Activation).fetch? = some e.instr := by
    simp [Activation.fetch?, he]
  have hs : settle F.store ⟨c, n, s, F.locals⟩ cs = .instr e.instr (F.config c (n + 1) s cs) := by
    cases cs with
    | nil => simp only [settle, hf]; rfl
    | cons p rest => simp only [settle, hf]; rfl
  constructor
  · intro m
    unfold Config.course run
    simp only [Frame.config] at hs ⊢
    simp only [hs]
    cases Config.execute w _ e.instr <;> rfl
  · intro m hm
    obtain rfl : m = 0 := by omega
    unfold Config.course run
    simp only [Frame.config] at hs ⊢
    simp only [hs]

/-- A body whose code has ended returns for free. -/
theorem settled (he : c.entries[n]? = none) :
    Costs 0 ((F.config c n s cs).course w) (((F.config c n s cs).leave (.ret none)).course w) := by
  have hf : (⟨c, n, s, F.locals⟩ : Activation).fetch? = none := by
    simp [Activation.fetch?, he]
  refine ⟨?_, fun m hm => by omega⟩
  intro m
  cases cs with
  | nil =>
    unfold Config.course run
    simp only [Frame.config, settle, hf]
    rfl
  | cons p rest =>
    change run w m (F.config c n s (p :: rest)) = run w m ⟨F.store, p.resume none, rest⟩
    unfold run
    simp only [Frame.config, settle, hf]

end Costs

/-- A course does what an account with the given result says.  Where the account ends with `a`, the
course gets there after at least `least a` instructions and goes on as `after` says; where the account
fails, so does the course; and where the account runs out of fuel, the course hits the instruction limit
with every budget below that fuel. -/
def FollowsBy {α : Type} (fuel : Nat) (least : α → Nat) (whole : Course) (after : α → Frame → Course) :
    EStateM.Result Halt Frame α → Prop
  | .ok a F => ∃ k, least a ≤ k ∧ Costs k whole (after a F)
  | .error (.fault f) F => ∃ k, Costs k whole fun n => ⟨.error f, F.store, n⟩
  | .error .exhausted _ => ∀ n, n < fuel → (whole n).outcome = .error .instructionLimit
  | .error .stuck _ => False

abbrev Follows {α : Type} (fuel : Nat) (whole : Course) (after : α → Frame → Course)
    (r : EStateM.Result Halt Frame α) : Prop := FollowsBy fuel (fun _ => 0) whole after r

namespace FollowsBy

variable {α β : Type} {fuel j : Nat} {least : α → Nat} {whole rest : Course} {after : α → Frame → Course}
  {F : Frame} {r : EStateM.Result Halt Frame α} {m : Eval α} {g : α → Eval β} {least' : β → Nat}
  {after' : β → Frame → Course}

theorem pure {a : α} (h : Costs (least a) whole (after a F)) :
    FollowsBy fuel least whole after (.ok a F) := ⟨least a, Nat.le_refl _, h⟩

theorem mono {fuel' : Nat} {least' : α → Nat} (h : FollowsBy fuel least whole after r) (hf : fuel' ≤ fuel)
    (hl : ∀ a, least' a ≤ least a) : FollowsBy fuel' least' whole after r := by
  match r, h with
  | .ok a _, ⟨k, hk, hc⟩ => exact ⟨k, Nat.le_trans (hl a) hk, hc⟩
  | .error (.fault _) _, h => exact h
  | .error .exhausted _, h => exact fun n hn => h n (Nat.lt_of_lt_of_le hn hf)

theorem prepend (h : FollowsBy fuel least rest after r) (hc : Costs j whole rest) :
    FollowsBy (fuel + j) (fun a => least a + j) whole after r := by
  match r, h with
  | .ok _ _, ⟨k, hk, h⟩ => exact ⟨k + j, Nat.add_le_add_right hk j, hc.trans h⟩
  | .error (.fault _) _, ⟨k, h⟩ => exact ⟨k + j, hc.trans h⟩
  | .error .exhausted _, h =>
    intro n hn
    by_cases hj : n < j
    · exact hc.short n hj
    · obtain ⟨m, rfl⟩ : ∃ m, n = m + j := ⟨n - j, by omega⟩
      rw [hc.enough]
      exact h m (by omega)

theorem step (h : Follows fuel rest after r) (hc : Costs 1 whole rest) : Follows (fuel + 1) whole after r :=
  (h.prepend hc).mono (Nat.le_refl _) fun _ => Nat.zero_le _

/-- Instructions that come first and that nobody counts. -/
theorem behind (h : FollowsBy fuel least rest after r) (hc : Costs j whole rest) :
    FollowsBy fuel least whole after r :=
  (h.prepend hc).mono (Nat.le_add_right _ _) fun _ => Nat.le_add_right _ _

theorem bindBy (h : FollowsBy fuel (fun _ => j) whole after (m F))
    (hg : ∀ a G, m F = .ok a G → FollowsBy fuel least' (after a G) after' (g a G)) :
    FollowsBy fuel (fun b => least' b + j) whole after' ((m >>= g) F) := by
  cases hm : m F with
  | ok a G =>
    rw [hm] at h
    obtain ⟨k, hk, hc⟩ := h
    rw [Eval.bind_of_ok hm]
    exact ((hg a G hm).prepend hc).mono (Nat.le_add_right _ _) fun b => Nat.add_le_add_left hk _
  | error e G =>
    rw [hm] at h
    rw [Eval.bind_of_error hm]
    match e, h with
    | .fault _, h => exact h
    | .exhausted, h => exact h

theorem bind (h : FollowsBy fuel least whole after (m F))
    (hg : ∀ a G, m F = .ok a G → FollowsBy fuel least' (after a G) after' (g a G)) :
    FollowsBy fuel least' whole after' ((m >>= g) F) :=
  (h.mono (Nat.le_refl _) fun _ => Nat.zero_le _).bindBy hg

theorem append {after' : α → Frame → Course} (h : FollowsBy fuel least whole after r)
    (hc : ∀ a G, ∃ j, Costs j (after a G) (after' a G)) : FollowsBy fuel least whole after' r := by
  match r, h with
  | .ok a G, ⟨k, hk, hw⟩ =>
    obtain ⟨j, hj⟩ := hc a G
    exact ⟨j + k, Nat.le_trans hk (Nat.le_add_left _ _), hw.trans hj⟩
  | .error (.fault _) _, h => exact h
  | .error .exhausted _, h => exact h

theorem within {locals : Array Value}
    (h : FollowsBy fuel least whole (fun a G => after a ⟨G.store, F.locals⟩) (m ⟨F.store, locals⟩)) :
    FollowsBy fuel least whole after (Eval.within locals m F) := by
  unfold Eval.within
  cases hm : m ⟨F.store, locals⟩ with
  | ok a G =>
    rw [hm] at h
    exact h
  | error e G =>
    rw [hm] at h
    match e, h with
    | .fault _, h => exact h
    | .exhausted, h => exact h

end FollowsBy

/-- What an instruction other than a call leads to when the body has callers, if without them it leads
to the given transition. -/
def Transition.under (cs : List Pending) : Transition → Transition
  | .next c => .next { c with callers := cs }
  | .done ending store => (Frame.config ⟨store, ending.locals⟩ ⟨#[], []⟩ 0 [] cs).leave ending.exit
  | .fault f store => .fault f store

namespace Transition

variable (F : Frame) (k : Chunk) (n : Nat) (s : List Value) (cs : List Pending)

theorem under_ofValue (r : Except Fault Value) : (ofValue F k n s [] r).under cs = ofValue F k n s cs r := by
  cases r <;> rfl

theorem under_ofFrame (r : Except Fault Frame) : (ofFrame F k n s [] r).under cs = ofFrame F k n s cs r := by
  cases r <;> rfl

theorem under_leave (exit : Exit) :
    ((F.config k n s []).leave exit).under cs = (F.config k n s cs).leave exit := by
  cases cs with
  | nil => rfl
  | cons p rest => cases exit <;> rfl

end Transition

/-- Only a call looks at the callers before the body is left. -/
theorem Config.execute_under (w : World) (F : Frame) (k : Chunk) (n : Nat) (s : List Value)
    (cs : List Pending) {i : Instr Nat} (hi : ∀ callee count, i ≠ .call callee count) :
    (F.config k n s cs).execute w i = ((F.config k n s []).execute w i).under cs := by
  have pops :
      ∀ count, (F.config k n s cs).makeSpatial count = ((F.config k n s []).makeSpatial count).under cs := by
    intro count
    simp only [makeSpatial, popMany, Frame.config]
    cases takeTop [] count s with
    | none => rfl
    | some taken =>
      simp only [bind, Except.bind]
      cases numbers taken.1 <;> rfl
  cases i with
  | push v => rfl
  | load x => rw [execute_load, execute_load, Transition.under_ofValue]
  | ret => exact (Transition.under_leave F k n s cs _).symm
  | changeState index => exact (Transition.under_leave F k n s cs _).symm
  | jump target => rfl
  | call callee count => exact absurd rfl (hi callee count)
  | makeVector => exact pops 3
  | makeRotation => exact pops 4
  | makeList count =>
    simp only [execute, popMany, Frame.config]
    cases takeTop [] count s <;> rfl
  | binary op =>
    cases s with
    | nil => rfl
    | cons r s =>
      cases s with
      | nil => rfl
      | cons l s => rw [execute_binary, execute_binary, Transition.under_ofValue]
  | store x =>
    cases s with
    | nil => rfl
    | cons v s => rw [execute_store, execute_store, Transition.under_ofFrame]
  | storeMember x axis =>
    cases s with
    | nil => rfl
    | cons v s => rw [execute_storeMember, execute_storeMember, Transition.under_ofFrame]
  | getMember axis =>
    cases s with
    | nil => rfl
    | cons v s => rw [execute_getMember, execute_getMember, Transition.under_ofValue]
  | unary op =>
    cases s with
    | nil => rfl
    | cons v s => rw [execute_unary, execute_unary, Transition.under_ofValue]
  | cast ty =>
    cases s with
    | nil => rfl
    | cons v s => rw [execute_cast, execute_cast, Transition.under_ofValue]
  | retValue =>
    cases s with
    | nil => rfl
    | cons v s => exact (Transition.under_leave F k n s cs _).symm
  | jumpIfFalse target =>
    cases s with
    | nil => rfl
    | cons v s => rw [execute_jumpIfFalse, execute_jumpIfFalse]; rfl
  | pop => cases s <;> rfl
  | dup => cases s <;> rfl
  | convert ty => cases s <;> rfl

variable {w : World} {fuel : Nat} {F : Frame} {k : Chunk} {n : Nat} {s : List Value} {cs : List Pending}
  {body : Chunk → Eval Exit}

def BodyFollows (w : World) (fuel depth : Nat) (body : Chunk → Eval Exit) : Prop :=
  ∀ (c : Chunk) (F : Frame) (p : Pending) (rest : List Pending), rest.length = depth →
    Follows fuel ((F.config c 0 [] (p :: rest)).course w)
      (fun exit G => ((G.config c 0 [] (p :: rest)).leave exit).course w) (body c F)

theorem callHost_follows (f : HostFunction) (args : List Value) :
    Follows fuel (((F.config k n s cs).callHost f args).course w)
      (fun value G => (G.config k n (value.toList ++ s) cs).course w) (f.call args F) := by
  rw [Config.callHost_config]
  unfold HostFunction.call
  obtain ⟨result, host⟩ := f.impl F.store.host args
  cases result with
  | error problem => exact ⟨0, .refl _⟩
  | ok value => exact .pure (.refl _)

/-- A call is one step of its caller when the body of the callee follows its account. -/
theorem callScript_follows (hb : BodyFollows w fuel cs.length body) (f : ScriptFunction Chunk)
    (args : List Value) :
    Follows fuel (((F.config k n s cs).callScript f args).course w)
      (fun value G => (G.config k n (value.toList ++ s) cs).course w) (f.call body cs.length args F) := by
  unfold Config.callScript ScriptFunction.call Activation.enter
  change Follows fuel (Transition.course w (if maxCallDepth ≤ cs.length then _ else _)) _ _
  by_cases hd : maxCallDepth ≤ cs.length
  · rw [if_pos hd, if_pos hd]
    exact ⟨0, .refl _⟩
  · rw [if_neg hd, if_neg hd]
    cases Activation.bind f.code.locals args with
    | error problem => exact ⟨0, .refl _⟩
    | ok locals =>
      let p : Pending := ⟨⟨k, n, s, F.locals⟩, f.signature⟩
      have hbody : Follows fuel ((Frame.config ⟨F.store, locals.toArray⟩ f.code 0 [] (p :: cs)).course w)
          (fun exit G => ((G.config f.code 0 [] (p :: cs)).leave exit).course w)
          (Eval.within locals.toArray (body f.code) F) := by
        apply FollowsBy.within
        have hstore : (fun exit (G : Frame) => ((G.config f.code 0 [] (p :: cs)).leave exit).course w) =
            fun exit G => ((Frame.config ⟨G.store, F.locals⟩ f.code 0 [] (p :: cs)).leave exit).course w := by
          funext exit G
          cases exit <;> rfl
        rw [← hstore]
        exact hb f.code ⟨F.store, locals.toArray⟩ p cs rfl
      refine hbody.bind fun exit G hG => ?_
      cases exit with
      | changeState index => exact ⟨0, .refl _⟩
      | ret value =>
        have hc : (⟨G.store, p.resume value, cs⟩ : Config) = G.config k n
            ((f.signature.returns.map fun ty => value.getD ty.defaultValue).toList ++ s) cs := by
          have hl : G.locals = F.locals := Eval.within_ok hG
          unfold Pending.resume Frame.config
          cases f.signature.returns <;> simp [p, hl]
        apply FollowsBy.pure
        rw [← hc]
        exact .refl _

theorem call_follows (hb : BodyFollows w fuel cs.length body) (callee : Callee) (args : List Value) :
    Follows fuel (((F.config k n s cs).call w callee args).course w)
      (fun value G => (G.config k n (value.toList ++ s) cs).course w)
      (w.call body cs.length callee args F) := by
  cases callee with
  | host id =>
    simp only [Config.call, World.call]
    cases w.registry.functions[id]? with
    | none => exact ⟨0, .refl _⟩
    | some f => exact callHost_follows f args
  | script index =>
    simp only [Config.call, World.call]
    cases w.program.functions[index]? with
    | none => exact ⟨0, .refl _⟩
    | some f => exact callScript_follows hb f args

namespace Chunk

variable {depth : Nat} {e : Entry}

theorem exec_call {callee : Callee} {count : Nat} (he : k.entries[n]? = some e)
    (hi : e.instr = .call callee count) :
    k.exec w (fuel + 1) depth n s = match takeTop [] count s with
      | none => throw (.fault .stackUnderflow)
      | some taken => w.callToEnd fuel depth callee taken.1 >>= fun value =>
        k.exec w fuel depth (n + 1) (value.toList ++ taken.2) := by
  rw [exec]
  simp only [he, hi]
  cases takeTop [] count s <;> rfl

theorem exec_other (he : k.entries[n]? = some e) (hi : ∀ callee count, e.instr ≠ .call callee count) :
    k.exec w (fuel + 1) depth n s F = match (F.config k (n + 1) s []).execute w e.instr with
      | .next c => c.active.chunk.exec w fuel depth c.active.position c.active.stack ⟨c.store,
        c.active.locals⟩
      | .done ending store => .ok ending.exit ⟨store, ending.locals⟩
      | .fault f store => .error (.fault f) ⟨store, F.locals⟩ := by
  rw [exec]
  simp only [he]
  generalize e.instr = i at hi
  cases i with
  | call callee count => exact absurd rfl (hi callee count)
  | _ => rfl

/-- The machine follows the account of code in which calls are nested. -/
theorem exec_follows (fuel depth : Nat) : ∀ (k : Chunk) (n : Nat) (s : List Value) (F : Frame) (p : Pending)
    (rest : List Pending), rest.length = depth →
    Follows fuel ((F.config k n s (p :: rest)).course w)
      (fun exit G => ((G.config k 0 [] (p :: rest)).leave exit).course w)
      (k.exec w fuel (depth + 1) n s F) := by
  induction fuel generalizing depth with
  | zero =>
    intro k n s F p rest hd
    unfold exec
    cases he : k.entries[n]? with
    | none => exact .pure (.settled he)
    | some e =>
      intro m hm
      omega
  | succ fuel ih =>
    intro k n s F p rest hd
    cases he : k.entries[n]? with
    | none =>
      unfold exec
      simp only [he]
      exact .pure (.settled he)
    | some e =>
      have hstep : Costs 1 ((F.config k n s (p :: rest)).course w)
          (((F.config k (n + 1) s (p :: rest)).execute w e.instr).course w) := .instr he
      by_cases hi : ∃ callee count, e.instr = .call callee count
      · obtain ⟨callee, count, hi⟩ := hi
        rw [exec_call he hi]
        rw [hi] at hstep
        apply FollowsBy.step _ hstep
        have hp : (F.config k (n + 1) s (p :: rest)).execute w (.call callee count) =
            match takeTop [] count s with
            | none => .fault .stackUnderflow F.store
            | some (args, below) => (F.config k (n + 1) below (p :: rest)).call w callee args := by
          simp only [Config.execute, Config.popMany, Frame.config]
          cases takeTop [] count s <;> rfl
        rw [hp]
        cases takeTop [] count s with
        | none => exact ⟨0, .refl _⟩
        | some taken =>
          have hlen : (p :: rest).length = depth + 1 := by simp [hd]
          have hbody : BodyFollows w fuel (p :: rest).length fun c => c.exec w fuel (depth + 1 + 1) 0 [] := by
            intro c F q others ho
            exact ih (depth + 1) c 0 [] F q others (ho.trans hlen)
          have hcall :
              Follows fuel (((F.config k (n + 1) taken.2 (p :: rest)).call w callee taken.1).course w)
              (fun value G => (G.config k (n + 1) (value.toList ++ taken.2) (p :: rest)).course w)
              (w.callToEnd fuel (depth + 1) callee taken.1 F) := by
            rw [← hlen] at hbody ⊢
            exact call_follows hbody callee taken.1
          exact hcall.bind fun value G _ => ih depth k (n + 1) _ G p rest hd
      · have hother : ∀ callee count, e.instr ≠ .call callee count :=
          fun callee count h => hi ⟨callee, count, h⟩
        rw [exec_other he hother]
        rw [Config.execute_under w F k (n + 1) s (p :: rest) hother] at hstep
        apply FollowsBy.step _ hstep
        cases (F.config k (n + 1) s []).execute w e.instr with
        | next c => exact ih depth _ _ _ _ p rest hd
        | done ending store => exact .pure (.refl _)
        | fault f store => exact ⟨0, .refl _⟩

end Chunk

theorem callToEnd_follows (callee : Callee) (args : List Value) :
    Follows fuel (((F.config k n s cs).call w callee args).course w)
      (fun value G => (G.config k n (value.toList ++ s) cs).course w)
      (w.callToEnd fuel cs.length callee args F) := by
  have hbody : BodyFollows w fuel cs.length fun c => c.exec w fuel (cs.length + 1) 0 [] := by
    intro c F p rest hr
    exact Chunk.exec_follows fuel cs.length c 0 [] F p rest hr
  exact call_follows hbody callee args

end WorldScript
