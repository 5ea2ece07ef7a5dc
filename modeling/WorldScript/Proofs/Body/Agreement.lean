import WorldScript.Proofs.Body.Frame
import WorldScript.Proofs.Body.Labels
import WorldScript.Proofs.Body.Simulation
import WorldScript.Script.Compile

/-! # A body and the tree of its statements

Work on the frames of a body ends like work on the tree of its statements: with the same slots and the same
code, or with the same problem.  The tree never leads to a defect, so that neither do the frames.
-/

namespace WorldScript

def Assembly.counted (a : Assembly) : LabelCount := ⟨a.targets.size⟩

theorem Assembly.counted_respects : Backend.Respects id Assembly.counted where
  newLabel a := by simp [Backend.newLabel, Assembly.newLabel, counted]
  place a l := by simp [Backend.place, Assembly.place, counted]
  write _ _ := rfl
  atLine _ _ := rfl

def Vocabulary.everything : Vocabulary := ⟨fun _ => True, fun _ => True⟩

theorem Vocabulary.everything_covers (r : Registry) (v : Visibility) : everything.Covers r v :=
  ⟨fun _ _ _ => trivial, fun _ _ _ => trivial, fun _ _ _ _ _ => trivial, fun _ _ _ =>
    trivial, fun _ => trivial⟩

theorem Vocabulary.everything_admits (ts : List Token) : everything.leaves.Admits ts :=
  ⟨fun _ _ _ _ => trivial, fun _ _ _ _ => trivial, fun _ _ _ _ => trivial, Diagnostic.syntactic_blames⟩

namespace Body

variable {σ : Type} [Backend σ] {issued : σ → Nat} {b : σ}

/-- A receiver that numbers its labels in turn, and for which no tree leads to a defect. -/
structure Reliable (issued : σ → Nat) (b : σ) : Prop where
  counts : Backend.Counts issued
  blames {ctx : BodyContext} {params : List Param} {opening stop : Nat} {tokens : List Token} {names : Names}
    {d : Diagnostic} {s : BodyState σ} :
    compileTree ctx params opening stop tokens (start names b) = .error d s → d.BlamesScript

theorem assembly_reliable : Reliable (fun a : Assembly => a.targets.size) .empty where
  counts := Assembly.counts
  blames h :=
    (compileTree_finishes (Vocabulary.everything_covers _ _) (Vocabulary.everything_admits _)
      _).of_error rfl h

variable {ctx : BodyContext} {params locals : List Param} {opening stop : Nat} {tokens : List Token}
  {names : Names}

/-- Counting labels instead of writing code changes nothing else. -/
theorem compileTree_counted : compileTree ctx params opening stop tokens (start names (⟨0⟩ : LabelCount)) =
    match compileTree ctx params opening stop tokens (start names Assembly.empty) with
    | .ok locals s => .ok locals (s.mapBackend Assembly.counted)
    | .error d s => .error d (s.mapBackend Assembly.counted) := by
  have h := compileTree_carries Assembly.counted_respects (.refl ctx) params opening stop tokens
    (start names Assembly.empty)
  have hstart : (start names Assembly.empty).mapBackend Assembly.counted = start names ⟨0⟩ := rfl
  rw [hstart] at h
  rw [h]
  cases compileTree ctx params opening stop tokens (start names Assembly.empty) <;> rfl

theorem labelCount_reliable : Reliable LabelCount.issued ⟨0⟩ where
  counts := LabelCount.counts
  blames {ctx params opening stop tokens names d s} h := by
    rw [compileTree_counted] at h
    cases hrun : compileTree ctx params opening stop tokens (start names Assembly.empty) with
    | ok locals t =>
      rw [hrun] at h
      cases h
    | error d t =>
      rw [hrun] at h
      cases h
      exact assembly_reliable.blames hrun

theorem compile_endsAlike (hb : Reliable issued b) (ctx : BodyContext) (params : List Param)
    (opening stop : Nat) (tokens : List Token) (names : Names) :
    EndsAlike issued (fun _ => True) (compile ctx params opening stop tokens (start names b))
      (compileTree ctx params opening stop tokens (start names b)) :=
  have hfresh : (start names b).Fresh issued := fun _ _ => rfl
  compile_follows hb.counts (start names b) params opening stop tokens _ _ hfresh.precedes rfl

/-- Where the frames come to the end of a body, so does the tree, up to the lines of labels. -/
theorem compile_ok (hb : Reliable issued b) {s : BodyState σ}
    (h : compile ctx params opening stop tokens (start names b) = .ok locals s) :
    ∃ t, compileTree ctx params opening stop tokens (start names b) = .ok locals t ∧
      s.undated = t.undated := by
  have halike := compile_endsAlike hb ctx params opening stop tokens names
  rw [h] at halike
  cases htree : compileTree ctx params opening stop tokens (start names b) with
  | ok locals' t =>
    rw [htree] at halike
    obtain ⟨rfl, hst, -⟩ := halike
    exact ⟨t, rfl, hst⟩
  | error d t =>
    rw [htree] at halike
    exact halike.elim

/-- A problem that the frames have with a body is the one that the tree has. -/
theorem compile_error (hb : Reliable issued b) {d : Diagnostic} {s : BodyState σ}
    (h : compile ctx params opening stop tokens (start names b) = .error d s) :
    ∃ t, compileTree ctx params opening stop tokens (start names b) = .error d t ∧
      issued s.backend = issued t.backend ∧ s.names = t.names := by
  have halike := compile_endsAlike hb ctx params opening stop tokens names
  rw [h] at halike
  cases htree : compileTree ctx params opening stop tokens (start names b) with
  | ok locals t =>
    rw [htree] at halike
    exact halike.elim
  | error d' t =>
    rw [htree] at halike
    obtain ⟨hissued, hnames, rfl | hdefect⟩ := halike
    · exact ⟨t, rfl, hissued, hnames⟩
    · exact absurd (hb.blames htree) hdefect

end Body

namespace Script

variable {σ γ : Type} [Backend σ] {issued : σ → Nat} {g : Generator σ γ} {ctx : BodyContext} {names : Names}
  {params locals : List Param} {body : Block}

/-- For the code of a body it is enough to go through the tree. -/
theorem bodyCode_of_ok (hg : Body.Reliable issued g.start) {s : BodyState σ}
    (h : Body.compileTree ctx params body.openLine body.closeLine body.tokens (Body.start names g.start) =
      .ok locals s) :
    bodyCode g ctx names params body =
      (g.finish locals s.backend).mapError fun label => .defect body.closeLine (.unboundLabel label) := by
  unfold bodyCode EStateM.run
  cases hrun : Body.compile ctx params body.openLine body.closeLine body.tokens
    (Body.start names g.start) with
  | ok locals' t =>
    obtain ⟨u, hu, htu⟩ := Body.compile_ok hg hrun
    cases h.symm.trans hu
    simp only [hrun, BodyState.backend_eq_of_undated htu]
  | error d t =>
    obtain ⟨u, hu, -⟩ := Body.compile_error hg hrun
    cases h.symm.trans hu

theorem bodyCode_of_error (hg : Body.Reliable issued g.start) {d : Diagnostic} {s : BodyState σ}
    (h : Body.compileTree ctx params body.openLine body.closeLine body.tokens (Body.start names g.start) =
      .error d s) :
    bodyCode g ctx names params body = .error d := by
  unfold bodyCode EStateM.run
  cases hrun : Body.compile ctx params body.openLine body.closeLine body.tokens
    (Body.start names g.start) with
  | ok locals' t =>
    obtain ⟨u, hu, -⟩ := Body.compile_ok hg hrun
    cases h.symm.trans hu
  | error d t =>
    obtain ⟨u, hu, -⟩ := Body.compile_error hg hrun
    cases h.symm.trans hu
    simp only [hrun]

end Script

end WorldScript
