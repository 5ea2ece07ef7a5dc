import WorldScript.Body.Frame
import WorldScript.Proofs.Body.Congruence
import WorldScript.Proofs.Label.Book
import WorldScript.Proofs.Stmt.Reading
import WorldScript.Proofs.Table

/-! # Frames stand for nested statements

The tokens of a body are worked off with a stack of frames.  That does the same as to read them as a tree of
statements and to go through the tree: what is still to be done when some frames are open is the rest of the
innermost construct, then the code that closes it, then the rest of the construct around it.  Only the lines
at which labels are bound may be others.
-/

namespace WorldScript

structure Backend.Counts {σ : Type} [Backend σ] (issued : σ → Nat) : Prop where
  newLabel (s : σ) : (Backend.newLabel s).1 = ⟨issued s⟩ ∧ issued (Backend.newLabel s).2 = issued s + 1
  place (s : σ) (l : Label) : issued (Backend.place s l) = issued s
  write (s : σ) (i : Instr Label) : issued (Backend.write s i) = issued s
  atLine (s : σ) (line : Nat) : issued (Backend.atLine s line) = issued s

theorem Backend.Counts.writeAll {σ : Type} [Backend σ] {issued : σ → Nat} (h : Backend.Counts issued) (s : σ)
    (code : List (Instr Label)) : issued (Backend.writeAll s code) = issued s := by
  induction code generalizing s with
  | nil => rfl
  | cons i rest ih => exact (ih (Backend.write s i)).trans (h.write s i)

theorem Assembly.counts : Backend.Counts fun a : Assembly => a.targets.size where
  newLabel a := ⟨rfl, by simp [Backend.newLabel, Assembly.newLabel]⟩
  place a l := by simp [Backend.place, Assembly.place]
  write _ _ := rfl
  atLine _ _ := rfl

theorem LabelCount.counts : Backend.Counts LabelCount.issued where
  newLabel _ := ⟨rfl, rfl⟩
  place _ _ := rfl
  write _ _ := rfl
  atLine _ _ := rfl

namespace BodyState

variable {σ : Type}

def undated (s : BodyState σ) : BodyState σ := { s with book := s.book.unlined }

def Fresh (issued : σ → Nat) (s : BodyState σ) : Prop :=
  ∀ l, issued s.backend ≤ l.id → s.book.records.get? l = none

structure Precedes (issued : σ → Nat) (s t : BodyState σ) : Prop where
  fresh : t.Fresh issued
  marked : ∀ l, s.book.isMarked l = true → t.book.isMarked l = true

variable {issued : σ → Nat} {s t u : BodyState σ}

theorem Fresh.precedes (h : s.Fresh issued) : s.Precedes issued s := ⟨h, fun _ hl => hl⟩

theorem Precedes.trans (h : s.Precedes issued t) (h' : t.Precedes issued u) : s.Precedes issued u :=
  ⟨h'.fresh, fun l hl => h'.marked l (h.marked l hl)⟩

theorem names_eq_of_undated (h : s.undated = t.undated) : s.names = t.names := (BodyState.mk.inj h).1

theorem jumps_eq_of_undated (h : s.undated = t.undated) : s.jumps = t.jumps := (BodyState.mk.inj h).2.2.1

theorem backend_eq_of_undated (h : s.undated = t.undated) :
    s.backend = t.backend := (BodyState.mk.inj h).2.2.2

theorem book_eq_of_undated (h : s.undated = t.undated) :
    s.book.unlined = t.book.unlined := (BodyState.mk.inj h).2.1

end BodyState

namespace Body

open BodyM

variable {σ α β : Type} {issued : σ → Nat} {x y : BodyM σ α} {t t' : BodyState σ} {R R' : BodyState σ → Prop}
  {f : BodyFrame} {outer : List BodyFrame}

/-- Two results are the same but for the lines of labels, and `R` holds of the first state.  Instead of a
defect, there may be any problem. -/
def EndsAlike (issued : σ → Nat) (R : BodyState σ → Prop) :
    EStateM.Result Diagnostic (BodyState σ) α → EStateM.Result Diagnostic (BodyState σ) α → Prop
  | .ok a t, .ok b t' => a = b ∧ t.undated = t'.undated ∧ R t
  | .error d t, .error d' t' =>
    issued t.backend = issued t'.backend ∧ t.names = t'.names ∧ (d = d' ∨ ¬d'.BlamesScript)
  | _, _ => False

/-- From states that differ in the lines of labels, `x` and `y` end alike. -/
def Passes (issued : σ → Nat) (x y : BodyM σ α) : Prop :=
  ∀ t t' : BodyState σ, t.Fresh issued → t.undated = t'.undated →
    EndsAlike issued (t.Precedes issued) (x t) (y t')

/-- From states after `s` that differ in the lines of labels, `x` and `y` end alike. -/
def Follows (issued : σ → Nat) (s : BodyState σ) (x y : BodyM σ α) : Prop :=
  ∀ t t' : BodyState σ, s.Precedes issued t → t.undated = t'.undated →
    EndsAlike issued (fun _ => True) (x t) (y t')

/-- Works that end alike may be carried on by works that end alike. -/
theorem EndsAlike.bind {f g : α → BodyM σ β} (h : EndsAlike issued R (x t) (y t'))
    (hf : ∀ a u u', u.undated = u'.undated → R u → EndsAlike issued R' (f a u) (g a u')) :
    EndsAlike issued R' ((x >>= f) t) ((y >>= g) t') := by
  cases hx : x t with
  | ok a u =>
    cases hy : y t' with
    | ok b u' =>
      rw [hx, hy] at h
      obtain ⟨rfl, huu, hu⟩ := h
      rw [run_bind_of_ok hx, run_bind_of_ok hy]
      exact hf a u u' huu hu
    | error d' u' =>
      rw [hx, hy] at h
      exact h.elim
  | error d u =>
    cases hy : y t' with
    | ok b u' =>
      rw [hx, hy] at h
      exact h.elim
    | error d' u' =>
      rw [hx, hy] at h
      rw [run_bind_of_error hx, run_bind_of_error hy]
      exact h

theorem EndsAlike.mono {r r' : EStateM.Result Diagnostic (BodyState σ) α} (h : EndsAlike issued R r r')
    (hR : ∀ u, R u → R' u) : EndsAlike issued R' r r' := by
  cases r with
  | ok a u =>
    cases r' with
    | ok b u' => exact ⟨h.1, h.2.1, hR u h.2.2⟩
    | error d' u' => exact h
  | error d u => cases r' <;> exact h

namespace Passes

variable {x y : BodyM σ α} {f g : α → BodyM σ β}

theorem pure (a : α) : Passes issued (pure a) (pure a) := fun _ _ ht h => ⟨rfl, h, ht.precedes⟩

theorem throw (d : Diagnostic) : Passes issued (throw d : BodyM σ α) (throw d) :=
  fun _ _ _ h =>
    ⟨congrArg issued (BodyState.backend_eq_of_undated h), BodyState.names_eq_of_undated h, .inl rfl⟩

theorem bind (hx : Passes issued x y) (hf : ∀ a, Passes issued (f a) (g a)) :
    Passes issued (x >>= f) (y >>= g) :=
  fun t t' ht htt => (hx t t' ht htt).bind fun a u u' huu hu =>
    (hf a u u' hu.fresh huu).mono fun _ => hu.trans

theorem get_bind {f g : BodyState σ → BodyM σ β}
    (h : ∀ t t' : BodyState σ, t.undated = t'.undated → Passes issued (f t) (g t')) :
    Passes issued (get >>= f) (get >>= g) :=
  fun t t' ht htt => h t t' htt t t' ht htt

end Passes

namespace Follows

variable {s : BodyState σ} {x y : BodyM σ α} {f g : α → BodyM σ β}

theorem of_passes (h : Passes issued x y) : Follows issued s x y :=
  fun t t' ht htt => (h t t' ht.fresh htt).mono fun _ _ => trivial

theorem mono {u : BodyState σ} (h : Follows issued s x y) (hu : s.Precedes issued u) : Follows issued u x y :=
  fun t t' ht htt => h t t' (hu.trans ht) htt

/-- After work that ends alike, what comes next is to end alike. -/
theorem bind (hx : Passes issued x y) (hf : ∀ a, Follows issued s (f a) (g a)) :
    Follows issued s (x >>= f) (y >>= g) :=
  fun t t' ht htt => (hx t t' ht.fresh htt).bind fun a u u' huu hu => hf a u u' (ht.trans hu) huu

theorem throw (d : Diagnostic) : Follows issued s (throw d : BodyM σ α) (throw d) := of_passes (.throw d)

/-- Labels that are bound need no second look. -/
theorem expectMarked {labels : List Label} (hl : ∀ l ∈ labels, s.book.isMarked l = true) (line : Nat)
    (h : Follows issued s x y) : Follows issued s (expectMarked labels line >>= fun _ => x) y := by
  intro t t' ht htt
  have hok : Body.expectMarked labels line t = .ok () t := by
    have := LabelBook.expectMarked_ok (fun l hm => ht.marked l (hl l hm)) line
    simp only [Body.expectMarked, run_get_bind, this]
    rfl
  rw [run_bind_of_ok hok]
  exact h t t' ht htt

end Follows

theorem changeNames_passes (f : Names → Names) : Passes issued (changeNames f) (changeNames f) :=
  fun _ _ ht htt =>
    ⟨rfl, congrArg (fun u : BodyState σ => { u with names := f u.names }) htt, ht, fun _ h => h⟩

theorem declare_passes (name : String) (ty : Ty) (line : Nat) :
    Passes issued (declare name ty line) (declare name ty line) := by
  intro t t' ht htt
  simp only [declare, run_get_bind, BodyState.names_eq_of_undated htt]
  cases t'.names.declareLocal name ty line with
  | error d =>
    exact ⟨congrArg issued (BodyState.backend_eq_of_undated htt), BodyState.names_eq_of_undated htt, .inl rfl⟩
  | ok r => exact ⟨rfl, congrArg (fun u : BodyState σ => { u with names := r.2 }) htt, ht, fun _ h => h⟩

variable [Backend σ]

theorem write_passes (hσ : Backend.Counts issued) (code : List (Instr Label)) :
    Passes issued (write code) (write code) := by
  intro t t' ht htt
  refine ⟨rfl, congrArg (fun u : BodyState σ => { u with backend := Backend.writeAll u.backend code }) htt,
    ?_⟩
  exact ⟨fun l hl => ht l (hσ.writeAll t.backend code ▸ hl), fun _ h => h⟩

theorem atLine_passes (hσ : Backend.Counts issued) (line : Nat) :
    Passes issued (atLine line) (atLine line) := by
  intro t t' ht htt
  refine ⟨rfl, congrArg (fun u : BodyState σ => { u with backend := Backend.atLine u.backend line }) htt, ?_⟩
  exact ⟨fun l hl => ht l (hσ.atLine t.backend line ▸ hl), fun _ h => h⟩

/-- A new label is not one that is bound already. -/
theorem newLabel_passes (hσ : Backend.Counts issued) (purpose : LabelPurpose) (construct : String)
    (line : Nat) : Passes issued (newLabel purpose construct line) (newLabel purpose construct line) := by
  intro t t' ht htt
  obtain ⟨hid, hnext⟩ := hσ.newLabel t.backend
  have hbook := BodyState.book_eq_of_undated htt
  have hbackend := BodyState.backend_eq_of_undated htt
  have hget (l : Label) :
      (t.book.record (Backend.newLabel t.backend).1 ⟨purpose, construct, line⟩).records.get? l =
      if l = ⟨issued t.backend⟩ then some ⟨⟨purpose, construct, line⟩, none⟩ else t.book.records.get? l := by
    rw [LabelBook.record, Table.get?_insert, hid]
  refine ⟨by rw [hbackend], ?_, ?_, ?_⟩
  · simp only [BodyState.undated, LabelBook.record_unlined, hbook, hbackend,
      BodyState.names_eq_of_undated htt,
      BodyState.jumps_eq_of_undated htt]
  · intro l hl
    have hle : issued t.backend + 1 ≤ l.id := hnext ▸ hl
    have hne : l ≠ ⟨issued t.backend⟩ := by
      rintro rfl
      exact absurd hle (Nat.not_succ_le_self _)
    exact (hget l).trans ((if_neg hne).trans (ht l (Nat.le_of_succ_le hle)))
  · intro l hl
    have hne : l ≠ ⟨issued t.backend⟩ := by
      rintro rfl
      simp [LabelBook.isMarked, ht _ (Nat.le_refl _)] at hl
    rw [LabelBook.isMarked] at hl ⊢
    rw [← hl]
    exact congrArg (Option.any _) ((hget l).trans (if_neg hne))

/-- A label that is bound is bound from then on. -/
theorem mark_endsAlike (hσ : Backend.Counts issued) (label : Label) (line line' : Nat) (ht : t.Fresh issued)
    (htt : t.undated = t'.undated) :
    EndsAlike issued (fun u => t.Precedes issued u ∧ u.book.isMarked label = true) (mark label line t)
      (mark label line' t') := by
  have hmark : (t.book.mark label line).toOption.map LabelBook.unlined =
      (t'.book.mark label line').toOption.map LabelBook.unlined := by
    rw [LabelBook.mark_unlined, LabelBook.mark_unlined, BodyState.book_eq_of_undated htt]
  have hbackend := BodyState.backend_eq_of_undated htt
  simp only [mark, run_get_bind]
  cases h : t.book.mark label line with
  | error d =>
    cases h' : t'.book.mark label line' with
    | error d' =>
      exact ⟨congrArg issued hbackend, BodyState.names_eq_of_undated htt, .inr (LabelBook.mark_error h')⟩
    | ok b' =>
      rw [h, h'] at hmark
      cases hmark
  | ok b =>
    cases h' : t'.book.mark label line' with
    | error d' =>
      rw [h, h'] at hmark
      cases hmark
    | ok b' =>
      rw [h, h'] at hmark
      have hb : b.unlined = b'.unlined := Option.some.inj hmark
      obtain ⟨r, hr, -, hinsert⟩ := LabelBook.mark_ok h
      have hget (l : Label) : b.records.get? l =
          if l = label then some { r with markedAt := some line } else t.book.records.get? l := by
        rw [hinsert, Table.get?_insert]
      refine ⟨rfl, ?_, ⟨?_, ?_⟩, ?_⟩
      · simp only [BodyState.undated, hb, hbackend, BodyState.names_eq_of_undated htt,
          BodyState.jumps_eq_of_undated htt]
      · intro l hl
        have hnone := ht l (hσ.place t.backend label ▸ hl)
        have hne : l ≠ label := by
          rintro rfl
          rw [hr] at hnone
          cases hnone
        exact (hget l).trans ((if_neg hne).trans hnone)
      · intro l hl
        by_cases hl' : l = label
        · subst hl'
          simp [LabelBook.isMarked, hget l]
        · rw [LabelBook.isMarked] at hl ⊢
          rw [← hl]
          exact congrArg (Option.any _) ((hget l).trans (if_neg hl'))
      · simp [LabelBook.isMarked, hget label]

theorem mark_passes (hσ : Backend.Counts issued) (label : Label) (line line' : Nat) :
    Passes issued (mark label line) (mark label line') :=
  fun _ _ ht htt => (mark_endsAlike hσ label line line' ht htt).mono fun _ h => h.1

theorem stepwise_passes (hσ : Backend.Counts issued) : Stepwise fun {_} x => Passes issued x x where
  pure := .pure
  throw := .throw
  bind := .bind
  reads hcongr hf := .get_bind fun t t' htt => by
    rw [hcongr t t' (BodyState.names_eq_of_undated htt) (BodyState.jumps_eq_of_undated htt)]
    exact hf t'
  write := write_passes hσ
  newLabel := newLabel_passes hσ
  mark label line := mark_passes hσ label line line
  atLine := atLine_passes hσ
  declare := declare_passes
  insertJump name j := fun _ _ ht htt =>
    ⟨rfl, congrArg (fun u : BodyState σ => { u with jumps := u.jumps.insert name j }) htt, ht, fun _ h => h⟩

/-- The end of a body looks at its labels, but not at their lines. -/
theorem finish_passes (hσ : Backend.Counts issued) (ctx : BodyContext) (stop : Nat) :
    Passes issued (finish ctx stop) (finish ctx stop) := by
  refine (stepwise_passes hσ).finish ctx (.bind (changeNames_passes _) fun _ => .get_bind fun t t' htt => ?_)
  have hcheck : (t.book.expectAllMarked stop).toOption = (t'.book.expectAllMarked stop).toOption := by
    rw [LabelBook.expectAllMarked_unlined, LabelBook.expectAllMarked_unlined t'.book,
      BodyState.book_eq_of_undated htt]
  cases h : t.book.expectAllMarked stop with
  | ok a =>
    cases h' : t'.book.expectAllMarked stop with
    | ok b => exact .pure ()
    | error d' =>
      rw [h, h'] at hcheck
      cases hcheck
  | error d =>
    cases h' : t'.book.expectAllMarked stop with
    | ok b =>
      rw [h, h'] at hcheck
      cases hcheck
    | error d' =>
      exact fun u u' _ huu => ⟨congrArg issued (BodyState.backend_eq_of_undated huu),
        BodyState.names_eq_of_undated huu, .inr (LabelBook.expectAllMarked_error h')⟩

/-- What follows a label that is bound may rely on it. -/
theorem Follows.mark {s : BodyState σ} (hσ : Backend.Counts issued) (label : Label) (line line' : Nat)
    (h : ∀ u, s.Precedes issued u → u.book.isMarked label = true → Follows issued u x y) :
    Follows issued s (mark label line >>= fun _ => x) (mark label line' >>= fun _ => y) :=
  fun _ _ ht htt => (mark_endsAlike hσ label line line' ht.fresh htt).bind fun _ u u' huu hu =>
    h u (ht.trans hu.1) hu.2 u u' hu.1.fresh.precedes huu

open BodyFrame

open Grammar (Parsed)

section Equations

variable (ctx : BodyContext) (lines : BodyLines) {frames : List BodyFrame}

def proceed (frames : List BodyFrame) : List Token → BodyM σ Unit
  | [] => closeBody ctx lines frames
  | t :: rest => do
    let next ← step ctx lines frames t rest
    run ctx lines next.value next.rest

def closing (f : BodyFrame) (outer : List BodyFrame) (ts : List Token) : BodyM σ Unit := do
  let after ← closeFrame ctx lines f ts
  run ctx lines (resumed outer after.value) after.rest

def opening (f : BodyFrame) (outer : List BodyFrame) (ts : List Token) : BodyM σ Unit := do
  changeNames Names.openScope
  run ctx lines (push (f.withBrace ts).value outer) (f.withBrace ts).rest

variable {ctx lines} {f : BodyFrame} {outer : List BodyFrame} {t : Token} {ts : List Token}

theorem run_eq (frames : List BodyFrame) (ts : List Token) : (run ctx lines frames ts : BodyM σ Unit) =
    closeFinished ctx lines frames ts >>= fun ready => proceed ctx lines ready.value ready.rest := by
  rw [run]
  refine congrArg (closeFinished ctx lines frames ts >>= ·) (funext fun ready => ?_)
  split
  · rename_i h
    rw [h, proceed]
  · rename_i h
    rw [h, proceed]

theorem closeFinished_open (h : (f.braced || !f.done) = true) :
    (closeFinished ctx lines (f :: outer) ts : BodyM σ _) = pure (.atStart (f :: outer)) := by
  rw [closeFinished, if_pos h]

theorem run_open (h : (f.braced || !f.done) = true) :
    (run ctx lines (f :: outer) ts : BodyM σ Unit) = proceed ctx lines (f :: outer) ts := by
  rw [run_eq, closeFinished_open h, pure_bind, Parsed.atStart]

/-- A construct without braces is closed as soon as its statement is complete. -/
theorem run_completed (h : f.braced = false) :
    (run ctx lines (completed (f :: outer)) ts : BodyM σ Unit) = closing ctx lines f outer ts := by
  rw [completed, if_neg (by simp [h]), run_eq, closeFinished, if_neg (by simp [h])]
  simp only [bind_assoc]
  refine congrArg (closeFrame ctx lines f ts >>= ·) (funext fun after => ?_)
  cases after.value with
  | none =>
    rw [resumed, run_eq]
    simp only [bind_assoc, pure_bind]
  | some arm => rw [pure_bind, resumed, push, run_open (by simp)]

theorem run_closeBrace (ht : t.kind = .closeBrace) (hb : f.braced = true) (he : f.construct ≠ .entry) :
    (run ctx lines (f :: outer) (t :: ts) : BodyM σ Unit) = closing ctx lines f outer ts := by
  rw [run_open (by simp [hb]), proceed]
  simp only [step, ht, closeBrace, closeFinished_open (show (f.braced || !f.done) = true by simp [hb]),
    Parsed.atStart, pure_bind, hb, he, Bool.not_true, Bool.false_eq_true, if_false, bind_assoc,
      List.tail_cons]
  rfl

theorem run_unfinished (ht : t.kind = .closeBrace) (hb : f.braced = false) :
    (run ctx lines (push f outer) (t :: ts) : BodyM σ Unit) =
      throw (.syntactic t.line (.statementBeforeBrace f.construct)) := by
  rw [push, run_open (by simp), proceed]
  simp only [step, ht, closeBrace]
  rw [closeFinished_open (by simp), pure_bind]
  simp only [Parsed.atStart, hb, Bool.not_false, if_true]
  rfl

theorem closing_eq (h : ∀ t rest, ts = t :: rest → (f.isArm && t.isKeyword .elseWord) = false) :
    (closing ctx lines f outer ts : BodyM σ Unit) = (do
      changeNames Names.closeScope
      let after ← closingCode ctx lines f ts
      expectMarked f.owned (firstLine lines.stop ts)
      run ctx lines (completed outer) after.rest) := by
  unfold closing closeFrame
  cases ts with
  | nil => simp only [closeFrame.closed, bind_assoc, pure_bind, resumed]
  | cons t rest =>
    simp only [h t rest rfl, Bool.false_eq_true, if_false, closeFrame.closed, bind_assoc, pure_bind, resumed]

theorem closing_else (hf : f.isArm = true) (ht : t.isKeyword .elseWord = true) :
    (closing ctx lines f outer (t :: ts) : BodyM σ Unit) = (do
      changeNames Names.closeScope
      let arm ← closeArm ctx lines f t.line ts
      run ctx lines (push arm.value outer) arm.rest) := by
  simp only [closing, closeFrame, hf, ht, Bool.and_self, if_true, bind_assoc, pure_bind, resumed]

theorem enter_opens :
    (enter f ts >>= fun p => run ctx lines (push p.value outer) p.rest : BodyM σ Unit) =
      opening ctx lines f outer ts := by
  simp only [enter, opening, bind_assoc, pure_bind]

theorem enterAfter_opens {construct : Construct} {header after : List Token}
    (h : Grammar.parenthesized lines construct ts = .ok (header, after))
    (work : List Token → Nat → BodyM σ BodyFrame) :
    (enterAfter lines construct ts work >>= fun p => run ctx lines (push p.value outer) p.rest) =
      work header (firstLine lines.stop after) >>= fun f => opening ctx lines f outer after := by
  unfold enterAfter
  split
  · rename_i h'
    rw [h] at h'
    cases h'
  · rename_i h'
    rw [h] at h'
    cases h'
    simp only [enter, opening, bind_assoc, pure_bind]

omit [Backend σ] in
theorem enterAfter_error {construct : Construct} {d : Diagnostic}
    (h : Grammar.parenthesized lines construct ts = .error d) (work : List Token → Nat → BodyM σ BodyFrame) :
    enterAfter lines construct ts work = throw d := by
  unfold enterAfter
  split
  · rename_i h'
    rw [h] at h'
    cases h'
    rfl
  · rename_i h'
    rw [h] at h'
    cases h'

theorem proceed_opened (work : BodyM σ (Parsed BodyFrame ts)) :
    (step.opened frames work >>= fun next => run ctx lines next.value next.rest) =
      work >>= fun p => run ctx lines (push p.value frames) p.rest := by
  simp only [step.opened, bind_assoc, pure_bind]

/-- A statement without statements inside it leaves the stack of frames as it is. -/
theorem proceed_plain (ht : Grammar.startsConstruct t = false) (hc : t.kind ≠ .closeBrace) :
    (proceed ctx lines frames (t :: ts) : BodyM σ Unit) = (match Grammar.plainStatement lines t ts with
      | .error d => throw d
      | .ok (s, rest) => do
        plain ctx frames (firstLine lines.stop rest) s
        run ctx lines (completed frames) rest) := by
  unfold Grammar.startsConstruct at ht
  rw [proceed, step.eq_def]
  generalize hr : (match Grammar.plainStatement lines t ts with
      | .error d => throw d
      | .ok (s, rest) => do
        plain ctx frames (firstLine lines.stop rest) s
        run ctx lines (completed frames) rest : BodyM σ Unit) = r
  split
  iterate 7
    · rename_i hk
      simp [hk] at ht hc
  · split
    · rename_i h
      simp only [h] at hr
      rw [← hr]
      rfl
    · rename_i h
      simp only [h] at hr
      rw [← hr]
      simp only [bind_assoc, pure_bind]

end Equations

/-- The labels that statements inside of some frames may jump to. -/
def Targets (frames : List BodyFrame) : Option LoopLabels → Prop
  | none => nearestLoop? frames = none
  | some l => ∃ f, nearestLoop? frames = some f ∧ f.again = some l.again ∧ f.stop = some l.stop

theorem Targets.inside {loop : Option LoopLabels} (h : Targets outer loop) (he : f.construct ≠ .entry)
    (hf : f.isLoop = false) : Targets (f :: outer) loop := by
  have hsame : nearestLoop? (f :: outer) = nearestLoop? outer := by simp [nearestLoop?, he, hf]
  cases loop with
  | none => exact hsame.trans h
  | some l =>
    obtain ⟨g, hg, hlabels⟩ := h
    exact ⟨g, hsame.trans hg, hlabels⟩

theorem Targets.loop {again stop : Label} (he : f.construct ≠ .entry) (hf : f.isLoop = true)
    (ha : f.again = some again) (hs : f.stop = some stop) : Targets (f :: outer) (some ⟨again, stop⟩) :=
  ⟨f, by simp [nearestLoop?, he, hf], ha, hs⟩

/-- It makes no difference how far the innermost frame is. -/
theorem Targets.redone {loop : Option LoopLabels} (h : Targets (f :: outer) loop) (b d : Bool) :
    Targets ({ f with braced := b, done := d } :: outer) loop := by
  by_cases he : f.construct = .entry
  · have hnone (g : BodyFrame) (hg : g.construct = .entry) : nearestLoop? (g :: outer) = none := by
      simp [nearestLoop?, hg]
    cases loop with
    | none => exact hnone _ he
    | some l =>
      obtain ⟨g, hg, -⟩ := h
      rw [hnone f he] at hg
      cases hg
  cases hf : f.isLoop with
  | false =>
    refine .inside ?_ he hf
    have hsame : nearestLoop? (f :: outer) = nearestLoop? outer := by simp [nearestLoop?, he, hf]
    unfold Targets at h ⊢
    rwa [hsame] at h
  | true =>
    have hself : nearestLoop? (f :: outer) = some f := by simp [nearestLoop?, he, hf]
    cases loop with
    | none => exact nomatch hself.symm.trans h
    | some l =>
      obtain ⟨g, hg, hagain, hstop⟩ := h
      cases hself.symm.trans hg
      exact .loop he hf hagain hstop

section Plain

variable {ctx : BodyContext} {frames : List BodyFrame} {loop : Option LoopLabels}

theorem loopControl_passes (hσ : Backend.Counts issued) (h : Targets frames loop)
    {target : BodyFrame → Option Label} {label : LoopLabels → Label}
    (ht : ∀ f l, f.again = some l.again → f.stop = some l.stop → target f = some (label l)) (word : Keyword)
    (line : Nat) :
    Passes issued (loopControl frames target word line) (loopJump (loop.map label) word line) := by
  cases loop with
  | none =>
    have hnone : nearestLoop? frames = none := h
    rw [loopControl, hnone]
    exact .throw _
  | some l =>
    obtain ⟨f, hf, ha, hs⟩ := h
    simp only [loopControl, hf, ht f l ha hs]
    exact write_passes hσ _

theorem defineLabel_passes (hσ : Backend.Counts issued) (name : String) (line next next' : Nat) :
    Passes issued (defineLabel name line next) (defineLabel name line next') := by
  have hmark (label : Label) := mark_passes hσ label next next'
  refine .bind ((stepwise_passes hσ).jumpLabel name line) fun label => .get_bind fun t t' htt => ?_
  rw [BodyState.jumps_eq_of_undated htt]
  split
  · split
    · exact .bind (.throw _) fun _ => hmark label
    · exact .bind ((stepwise_passes hσ).insertJump _ _) fun _ => hmark label
  · exact hmark label

/-- A statement without others inside it. -/
theorem plain_passes (hσ : Backend.Counts issued) (h : Targets frames loop) {ts rest : List Token}
    {stmt : Stmt} (hp : Grammar.Plain ts stmt rest) (next : Nat) :
    Passes issued (plain ctx frames next stmt) (statement ctx loop stmt) := by
  have hsteps := stepwise_passes hσ
  cases hp with
  | empty => exact .pure ()
  | declare | declareInit => exact .bind (atLine_passes hσ _) fun _ => hsteps.declaration ctx _ _ _ _
  | expr =>
    refine .bind (atLine_passes hσ _) fun _ => .bind (hsteps.elaborate ctx _) fun e => ?_
    split
    · exact defineLabel_passes hσ _ _ _ _
    · exact hsteps.liftWrite _
  | ret | retValue => exact .bind (atLine_passes hσ _) fun _ => hsteps.returning ctx _ _
  | changeState => exact .bind (atLine_passes hσ _) fun _ => hsteps.stateChange ctx _ _
  | jump =>
    exact .bind (atLine_passes hσ _) fun _ => .bind (hsteps.jumpLabel _ _) fun _ => write_passes hσ _
  | breakLoop =>
    exact .bind (atLine_passes hσ _) fun _ => loopControl_passes hσ h (fun _ _ _ hs => hs) _ _
  | continueLoop =>
    exact .bind (atLine_passes hσ _) fun _ => loopControl_passes hσ h (fun _ _ ha _ => ha) _ _

end Plain

section Simulation

variable (issued) (ctx : BodyContext) (lines : BodyLines)

/-- The statement with which a token starts is worked off as it is read. -/
def SimulatesStatement (t : Token) (ts : List Token) : Prop :=
  ∀ {f : BodyFrame} {outer : List BodyFrame} {loop : Option LoopLabels} {stmt : Stmt} {rest : List Token}
    {s : BodyState σ} {k : BodyM σ Unit}, (f.braced || !f.done) = true → Targets (f :: outer) loop →
    (Grammar.statement lines f.construct t ts).read = (stmt, rest) →
    Follows issued s (run ctx lines (completed (f :: outer)) rest) k →
    Follows issued s (run ctx lines (f :: outer) (t :: ts)) (statement ctx loop stmt >>= fun _ => k)

/-- So is the construct with which it starts, inside of some frames. -/
def SimulatesConstruct (frames : List BodyFrame) (loop : Option LoopLabels) (t : Token) (ts : List Token) :
    Prop :=
  ∀ {inside : Construct} {stmt : Stmt} {rest : List Token} {s : BodyState σ} {k : BodyM σ Unit},
    (Grammar.statement lines inside t ts).read = (stmt, rest) →
    Follows issued s (run ctx lines (completed frames) rest) k →
    Follows issued s (proceed ctx lines frames (t :: ts)) (statement ctx loop stmt >>= fun _ => k)

def SimulatesBraced (ts : List Token) : Prop :=
  ∀ {f : BodyFrame} {outer : List BodyFrame} {loop : Option LoopLabels} {body : List Stmt} {rest : List Token}
    {s : BodyState σ} {k : BodyM σ Unit}, f.construct ≠ .entry → f.braced = true → Targets (f :: outer) loop →
    (Grammar.braced lines f.construct f.line ts).read = (body, rest) →
    Follows issued s (closing ctx lines f outer rest) k →
    Follows issued s (run ctx lines (f :: outer) ts) (statements ctx loop body >>= fun _ => k)

def SimulatesBody (ts : List Token) : Prop :=
  ∀ {f : BodyFrame} {outer : List BodyFrame} {loop : Option LoopLabels} {body : List Stmt} {rest : List Token}
    {s : BodyState σ} {k : BodyM σ Unit}, f.construct ≠ .entry → f.braced = false →
      Targets (f :: outer) loop →
    (Grammar.bodyOf lines f.construct f.line ts).read = (body, rest) →
    Follows issued s (closing ctx lines f outer rest) (changeNames Names.closeScope >>= fun _ => k) →
    Follows issued s (opening ctx lines f outer ts) (inScope (statements ctx loop body) >>= fun _ => k)

def SimulatesTail (ts : List Token) : Prop :=
  ∀ {f : BodyFrame} {outer : List BodyFrame} {loop : Option LoopLabels} {otherwise : Label} {tail : Tail}
    {rest : List Token} {s : BodyState σ} {k : BodyM σ Unit}, f.isArm = true → f.owned = [otherwise] →
    f.stop = some otherwise → Targets outer loop → (Grammar.conditionalTail lines ts).read = (tail, rest) →
    Follows issued s (run ctx lines (completed outer) rest) k →
    Follows issued s (closing ctx lines f outer ts)
      (changeNames Names.closeScope >>= fun _ =>
        conditionalTail ctx loop f.meeting otherwise f.line tail >>= fun _ => k)

section Constructs

variable {issued ctx lines} {frames : List BodyFrame} {loop : Option LoopLabels} {t : Token}
  {ts rest : List Token} {s : BodyState σ} {k : BodyM σ Unit} (hσ : Backend.Counts issued)
  {outer : List BodyFrame}

theorem block_follows (ht : t.kind = .openBrace) (hloop : Targets frames loop)
    (hbody : SimulatesBraced issued ctx lines ts) :
    SimulatesConstruct issued ctx lines frames loop t ts := by
  intro inside stmt rest s k hread hk
  rw [Grammar.statement_braces ht] at hread
  cases hread
  simp only [proceed, step, ht, statement, inScope, bind_assoc, pure_bind]
  refine .bind (changeNames_passes _) fun _ => hbody (by simp) rfl (hloop.inside (by simp) rfl) rfl ?_
  rw [closing_eq fun _ _ _ => rfl]
  simp only [closingCode, pure_bind]
  exact .bind (changeNames_passes _) fun _ => .expectMarked (by simp [owned]) _ hk

/-- A construct of which the header cannot be read. -/
theorem header_follows {construct : Construct} {work : List Token → Nat → BodyM σ BodyFrame}
    {d : Diagnostic} {stmt : Stmt} (hp : Grammar.parenthesized lines construct ts = .error d)
    (hread : (Stmt.broken d, []) = (stmt, rest)) :
    Follows issued s (enterAfter lines construct ts work >>= fun p =>
      run ctx lines (push p.value frames) p.rest) (statement ctx loop stmt >>= fun _ => k) := by
  cases hread
  rw [enterAfter_error hp]
  exact .throw d

include hσ

theorem branch_follows (ht : t.kind = .keyword .ifWord) (hloop : Targets frames loop)
    (hbody : ∀ test first, Grammar.parenthesized lines .ifArm ts = .ok (test, first) →
      SimulatesBody issued ctx lines first ∧
        SimulatesTail issued ctx lines (Grammar.bodyOf lines .ifArm t.line first).rest) :
    SimulatesConstruct issued ctx lines frames loop t ts := by
  intro inside stmt rest s k hread hk
  rw [Grammar.statement_branch ht] at hread
  simp only [proceed, step, ht, proceed_opened, enterIf]
  cases hp : Grammar.parenthesized lines .ifArm ts with
  | error d =>
    rw [hp] at hread
    exact header_follows hp hread
  | ok header =>
    obtain ⟨test, first⟩ := header
    rw [hp] at hread
    cases hread
    rw [enterAfter_opens hp]
    simp only [statement, bind_assoc, pure_bind]
    obtain ⟨hfirst, htail⟩ := hbody test first hp
    refine .bind (atLine_passes hσ _) fun _ => ?_
    refine .bind ((stepwise_passes hσ).armCondition ctx _ _ _) fun otherwise => ?_
    refine hfirst (by simp) rfl (hloop.inside (by simp) rfl) rfl ?_
    exact htail rfl (by simp [owned]) rfl hloop rfl hk

theorem whileLoop_follows (ht : t.kind = .keyword .whileWord)
    (hbody : ∀ test first, Grammar.parenthesized lines .whileLoop ts = .ok (test, first) →
      SimulatesBody issued ctx lines first) :
    SimulatesConstruct issued ctx lines frames loop t ts := by
  intro inside stmt rest s k hread hk
  rw [Grammar.statement_whileLoop ht] at hread
  simp only [proceed, step, ht, proceed_opened, enterWhile]
  cases hp : Grammar.parenthesized lines .whileLoop ts with
  | error d =>
    rw [hp] at hread
    exact header_follows hp hread
  | ok header =>
    obtain ⟨test, first⟩ := header
    rw [hp] at hread
    cases hread
    rw [enterAfter_opens hp]
    simp only [statement, bind_assoc, pure_bind]
    refine .bind (atLine_passes hσ _) fun _ => .bind (newLabel_passes hσ _ _ _) fun again => ?_
    refine .bind (newLabel_passes hσ _ _ _) fun stop => .mark hσ again _ _ fun u hu hagain => ?_
    refine .bind ((stepwise_passes hσ).condition ctx _ _) fun _ => .bind (write_passes hσ _) fun _ => ?_
    refine hbody test first hp (by simp) rfl (.loop (by simp) rfl rfl rfl) rfl ?_
    rw [closing_eq fun _ _ _ => rfl]
    simp only [closingCode, required, bind_assoc, pure_bind]
    refine .bind (changeNames_passes _) fun _ => .bind (atLine_passes hσ _) fun _ => ?_
    refine .bind (write_passes hσ _) fun _ => .mark hσ stop _ _ fun v hv hstop => ?_
    exact .expectMarked (by simp [owned, hv.marked again hagain, hstop]) _ (hk.mono (hu.trans hv))

/-- A counted loop from its body on, whether it has a test or not. -/
theorem forBody_follows {first : List Token} {line : Nat} {top : Label} (again stop : Label)
    (step : List Token) (hbody : SimulatesBody issued ctx lines first) (htop : s.book.isMarked top = true)
    (hk : Follows issued s
      (run ctx lines (completed frames) (Grammar.bodyOf lines .forLoop line first).rest) k) :
    Follows issued s
      (opening ctx lines
        { construct := .forLoop, line, top := some top, again := some again, stop := some stop,
          step } frames first)
      (do
        let after := firstLine lines.stop (Grammar.bodyOf lines .forLoop line first).rest
        inScope (statements ctx (some ⟨again, stop⟩) (Grammar.bodyOf lines .forLoop line first).value)
        atLine after
        mark again after
        effects ctx (Term.listOfTokens line step)
        write [.jump top]
        mark stop after
        k) := by
  refine hbody (by simp) rfl (.loop (by simp) rfl rfl rfl) rfl ?_
  rw [closing_eq fun _ _ _ => rfl]
  simp only [closingCode, required, bind_assoc, pure_bind]
  refine .bind (changeNames_passes _) fun _ => .bind (atLine_passes hσ _) fun _ => ?_
  refine .mark hσ again _ _ fun u hu hagain => .bind ((stepwise_passes hσ).effects ctx _) fun _ => ?_
  refine .bind (write_passes hσ _) fun _ => .mark hσ stop _ _ fun v hv hstop => ?_
  have htop' := hv.marked top (hu.marked top htop)
  exact .expectMarked (by simp [owned, htop', hv.marked again hagain, hstop]) _ (hk.mono (hu.trans hv))

theorem forLoop_follows (ht : t.kind = .keyword .forWord)
    (hbody : ∀ header first, Grammar.parenthesized lines .forLoop ts = .ok (header, first) →
      SimulatesBody issued ctx lines first) :
    SimulatesConstruct issued ctx lines frames loop t ts := by
  intro inside stmt rest s k hread hk
  rw [Grammar.statement_forLoop ht] at hread
  simp only [proceed, step, ht, proceed_opened, enterFor]
  cases hp : Grammar.parenthesized lines .forLoop ts with
  | error d =>
    rw [hp] at hread
    exact header_follows hp hread
  | ok header =>
    obtain ⟨header, first⟩ := header
    rw [hp] at hread
    rw [enterAfter_opens hp]
    rcases hr : runsBetween .semicolon header with _ | ⟨init, _ | ⟨test, _ | ⟨step, _ | ⟨more, others⟩⟩⟩⟩
    case cons.cons.cons.nil =>
      simp only [hr] at hread ⊢
      cases hread
      simp only [statement, bind_assoc]
      refine .bind (atLine_passes hσ _) fun _ => .bind ((stepwise_passes hσ).effects ctx _) fun _ => ?_
      refine .bind (newLabel_passes hσ _ _ _) fun top => .bind (newLabel_passes hσ _ _ _) fun again => ?_
      refine .bind (newLabel_passes hσ _ _ _) fun stop => .mark hσ top _ _ fun u hu htop => ?_
      have hrest := forBody_follows hσ again stop step (hbody header first hp) htop (hk.mono hu)
      cases hempty : test.isEmpty with
      | true =>
        simp only [Bool.not_true, Bool.false_eq_true, if_false, if_true, bind_assoc, pure_bind]
        exact hrest
      | false =>
        simp only [Bool.not_false, Bool.false_eq_true, if_false, if_true, bind_assoc, pure_bind]
        refine .bind ((stepwise_passes hσ).condition ctx _ _) fun _ => .bind (write_passes hσ _) fun _ => ?_
        exact hrest
    all_goals
      simp only [hr] at hread
      cases hread
      exact .throw _

/-- A loop that tests its condition last, where its test cannot be read. -/
theorem follows_broken {d : Diagnostic} {line : Nat} {again : Label} {g : Unit → BodyM σ Unit} :
    Follows issued s (throw d)
      (do atLine line; mark again line; let a ← condition ctx (.broken d) line; g a) := by
  intro t t' _ htt
  have hissued : issued t.backend = issued (Backend.atLine t'.backend line) := by
    rw [BodyState.backend_eq_of_undated htt, hσ.atLine]
  have hnames : t.names = t'.names := BodyState.names_eq_of_undated htt
  have hline : atLine line t' = .ok () { t' with backend := Backend.atLine t'.backend line } := rfl
  rw [run_bind_of_ok hline]
  cases hmark : t'.book.mark again line with
  | error d' =>
    have hrun : mark again line { t' with backend := Backend.atLine t'.backend line } =
        .error d' { t' with backend := Backend.atLine t'.backend line } := by
      simp only [mark, run_get_bind, hmark]
      rfl
    rw [run_bind_of_error hrun]
    exact ⟨hissued, hnames, .inr (LabelBook.mark_error hmark)⟩
  | ok book =>
    have hrun : mark again line { t' with backend := Backend.atLine t'.backend line } =
        .ok () { t' with book, backend := Backend.place (Backend.atLine t'.backend line) again } := by
      simp only [mark, run_get_bind, hmark]
      rfl
    rw [run_bind_of_ok hrun]
    exact ⟨hissued.trans (hσ.place _ again).symm, hnames, .inl rfl⟩

theorem doLoop_follows (ht : t.kind = .keyword .doWord) (hbody : SimulatesBody issued ctx lines ts) :
    SimulatesConstruct issued ctx lines frames loop t ts := by
  intro inside stmt rest s k hread hk
  rw [Grammar.statement_doLoop ht] at hread
  cases hread
  simp only [proceed, step, ht, proceed_opened, enterDo, statement, bind_assoc]
  refine .bind (atLine_passes hσ _) fun _ => .bind (newLabel_passes hσ _ _ _) fun top => ?_
  refine .bind (newLabel_passes hσ _ _ _) fun again => .bind (newLabel_passes hσ _ _ _) fun stop => ?_
  refine .mark hσ top _ _ fun u hu htop => ?_
  rw [enter_opens]
  refine hbody (by simp) rfl (.loop (by simp) rfl rfl rfl) rfl ?_
  rw [closing_eq fun _ _ _ => rfl]
  simp only [closingCode, closeDo, required, bind_assoc, pure_bind]
  refine .bind (changeNames_passes _) fun _ => ?_
  simp only [Grammar.loopTest, Parsed.read] at hk ⊢
  cases hc : Grammar.closingTest lines (Grammar.bodyOf lines .doLoop t.line ts).rest with
  | error d => exact follows_broken hσ
  | ok test =>
    rw [hc] at hk
    simp only [lift, pure_bind]
    refine .bind (atLine_passes hσ _) fun _ => .mark hσ again _ _ fun v hv hagain => ?_
    refine .bind ((stepwise_passes hσ).condition ctx _ _) fun _ => .bind (write_passes hσ _) fun _ => ?_
    refine .mark hσ stop _ _ fun w hw hstop => ?_
    have htop' := hw.marked top (hv.marked top htop)
    exact .expectMarked (by simp [owned, htop', hw.marked again hagain, hstop]) _
      (hk.mono ((hu.trans hv).trans hw))

theorem meetingPoint_passes (known : Option Label) (line : Nat) :
    Passes issued (meetingPoint known line) (meetingPoint known line) := by
  cases known with
  | some label => exact .pure label
  | none => exact newLabel_passes hσ _ _ _

/-- An arm that no `else` follows is closed. -/
theorem done_follows {f : BodyFrame} {otherwise : Label} (hf : f.isArm = true)
    (howned : f.owned = [otherwise]) (hstop : f.stop = some otherwise)
    (ht : ∀ t rest, ts = t :: rest → t.kind ≠ .keyword .elseWord)
    (hk : Follows issued s (run ctx lines (completed outer) ts) k) :
    Follows issued s (closing ctx lines f outer ts) (changeNames Names.closeScope >>= fun _ =>
      conditionalTail ctx loop f.meeting otherwise f.line (.done (firstLine lines.stop ts)) >>= fun _ =>
        k) := by
  have hcode : (closingCode ctx lines f ts : BodyM σ _) = (do
      atLine (firstLine lines.stop ts)
      mark otherwise (firstLine lines.stop ts)
      markKnown f.meeting (firstLine lines.stop ts)
      return .atStart ()) := by
    unfold isArm at hf
    unfold closingCode
    cases hc : f.construct <;> simp [hc] at hf <;> simp [hstop, required]
  rw [closing_eq fun t rest h => by simp [Token.isKeyword, Token.is, ht t rest h], hcode]
  simp only [conditionalTail, bind_assoc, pure_bind, howned]
  refine .bind (changeNames_passes _) fun _ => .bind (atLine_passes hσ _) fun _ => ?_
  refine .mark hσ otherwise _ _ fun u hu hmarked => ?_
  refine .bind ?_ fun _ => .expectMarked (by simp [hmarked]) _ (hk.mono hu)
  cases f.meeting with
  | some label => exact mark_passes hσ label _ _
  | none => exact .pure ()

/-- An arm up to the `else` after it. -/
theorem closeArm_follows {f : BodyFrame} {outer : List BodyFrame} {otherwise : Label} (hf : f.isArm = true)
    (howned : f.owned = [otherwise]) (hstop : f.stop = some otherwise) (ht : t.kind = .keyword .elseWord)
    {g : Label → BodyM σ Unit}
    (hg : ∀ u meeting, s.Precedes issued u → Follows issued u (do
      let arm ← enterElse ctx lines meeting t.line ts
      run ctx lines (push arm.value outer) arm.rest) (g meeting)) :
    Follows issued s (closing ctx lines f outer (t :: ts)) (changeNames Names.closeScope >>= fun _ =>
      nextArm f.meeting otherwise f.line t.line >>= g) := by
  rw [closing_else hf (by simp [Token.isKeyword, Token.is, ht])]
  simp only [closeArm, nextArm, hstop, required, howned, bind_assoc, pure_bind]
  refine .bind (changeNames_passes _) fun _ => .bind (atLine_passes hσ _) fun _ => ?_
  refine .bind (meetingPoint_passes hσ _ _) fun meeting => .bind (write_passes hσ _) fun _ => ?_
  exact .mark hσ otherwise _ _ fun u hu hmarked => .expectMarked (by simp [hmarked]) _ (hg u meeting hu)

theorem elseArm_follows {body : List Stmt} {meeting : Label} {line : Nat} (hloop : Targets outer loop)
    (hbody : SimulatesBody issued ctx lines ts)
    (hread : (Grammar.bodyOf lines .elseArm line ts).read = (body, rest))
    (hk : Follows issued s (run ctx lines (completed outer) rest) k) :
    Follows issued s (opening ctx lines { construct := .elseArm, line, meeting := some meeting } outer ts) (do
      inScope (statements ctx loop body)
      atLine (firstLine lines.stop rest)
      mark meeting (firstLine lines.stop rest)
      k) := by
  refine hbody (by simp) rfl (hloop.inside (by simp) rfl) hread ?_
  rw [closing_eq fun _ _ _ => rfl]
  simp only [closingCode, required, bind_assoc, pure_bind]
  refine .bind (changeNames_passes _) fun _ => .bind (atLine_passes hσ _) fun _ => ?_
  exact .mark hσ meeting _ _ fun u hu hmarked => .expectMarked (by simp [owned, hmarked]) _ (hk.mono hu)

theorem elseIf_follows {outer : List BodyFrame} {meeting : Label} {line : Nat} {first test : List Token}
    (hloop : Targets outer loop) (hp : Grammar.parenthesized lines .elseIfArm ts = .ok (test, first))
    (hbody : SimulatesBody issued ctx lines first)
    (htail : SimulatesTail issued ctx lines (Grammar.bodyOf lines .elseIfArm line first).rest)
    (hk : Follows issued s (run ctx lines (completed outer)
      (Grammar.conditionalTail lines (Grammar.bodyOf lines .elseIfArm line first).rest).rest) k) :
    Follows issued s (do
      let arm ← enterAfter lines .elseIfArm ts fun test _ => do
        let otherwise ← armCondition ctx .elseIfArm (Grammar.conditionTerm line test) line
        return { construct := .elseIfArm, line, stop := some otherwise, meeting := some meeting }
      run ctx lines (push arm.value outer) arm.rest) (do
        let next ← armCondition ctx .elseIfArm (Grammar.conditionTerm line test) line
        inScope (statements ctx loop (Grammar.bodyOf lines .elseIfArm line first).value)
        conditionalTail ctx loop (some meeting) next line
          (Grammar.conditionalTail lines (Grammar.bodyOf lines .elseIfArm line first).rest).value
        k) := by
  rw [enterAfter_opens hp]
  simp only [bind_assoc, pure_bind]
  refine .bind ((stepwise_passes hσ).armCondition ctx _ _ _) fun next => ?_
  refine hbody (by simp) rfl (hloop.inside (by simp) rfl) rfl ?_
  exact htail rfl (by simp [owned]) rfl hloop rfl hk

end Constructs

variable {issued ctx lines}

mutual

/-- By induction over the tokens that are left, with one lemma for each construct. -/
theorem simulates_statement (hσ : Backend.Counts issued) (t : Token) (ts : List Token)
    (hc : t.kind ≠ .closeBrace) : SimulatesStatement issued ctx lines t ts := by
  intro f outer loop stmt rest s k hopen hloop hread hk
  rw [run_open hopen]
  cases hs : Grammar.startsConstruct t with
  | false =>
    rw [proceed_plain hs hc]
    rw [Grammar.statement_plain hs] at hread
    cases hp : Grammar.plainStatement lines t ts with
    | error d =>
      rw [hp] at hread
      cases hread
      exact .throw d
    | ok r =>
      rw [hp] at hread
      cases hread
      exact .bind (plain_passes hσ hloop (Grammar.plain_of_plainStatement hs hp) _) fun _ => hk
  | true =>
    unfold Grammar.startsConstruct at hs
    split at hs
    · rename_i ht
      exact block_follows ht hloop (simulates_braced hσ ts) hread hk
    · rename_i ht
      refine branch_follows hσ ht hloop (fun test first hp => ⟨simulates_body hσ first, ?_⟩) hread hk
      exact simulates_tail hσ _
    · rename_i ht
      exact whileLoop_follows hσ ht (fun test first hp => simulates_body hσ first) hread hk
    · rename_i ht
      exact forLoop_follows hσ ht (fun header first hp => simulates_body hσ first) hread hk
    · rename_i ht
      exact doLoop_follows hσ ht (simulates_body hσ ts) hread hk
    · rename_i ht
      rw [Grammar.statement_else ht] at hread
      cases hread
      simp only [proceed, step, ht]
      exact .throw _
    · cases hs
termination_by 3 * ts.length + 2
decreasing_by
  · omega
  · have := Grammar.parenthesized_length hp
    omega
  · have := Grammar.parenthesized_length hp
    have := (Grammar.bodyOf lines .ifArm t.line first).rest_le
    omega
  · have := Grammar.parenthesized_length hp
    omega
  · have := Grammar.parenthesized_length hp
    omega
  · omega

theorem simulates_braced (hσ : Backend.Counts issued) (ts : List Token) :
    SimulatesBraced issued ctx lines ts := by
  intro f outer loop body rest s k he hb hloop hread hk
  match ts with
  | [] =>
    rw [Grammar.braced] at hread
    cases hread
    rw [run_open (by simp [hb]), proceed, closeBody, if_pos he, if_pos hb]
    exact .throw _
  | t :: more =>
    by_cases ht : t.kind = .closeBrace
    · rw [Grammar.braced_close ht] at hread
      cases hread
      rw [run_closeBrace ht hb he]
      exact hk
    · rw [Grammar.braced_more ht] at hread
      cases hread
      simp only [statements, bind_assoc]
      refine simulates_statement hσ t more ht (by simp [hb]) hloop rfl ?_
      rw [completed, if_pos hb]
      have hle := (Grammar.statement lines f.construct t more).rest_le
      exact simulates_braced hσ _ he hb hloop rfl hk
termination_by 3 * ts.length + 1
decreasing_by
  · simp only [List.length_cons]
    omega
  · simp only [List.length_cons]
    omega

theorem simulates_body (hσ : Backend.Counts issued) (ts : List Token) :
    SimulatesBody issued ctx lines ts := by
  intro f outer loop body rest s k he hb hloop hread hk
  simp only [opening, inScope, bind_assoc]
  refine .bind (changeNames_passes _) fun _ => ?_
  match ts with
  | [] =>
    rw [Grammar.bodyOf] at hread
    cases hread
    rw [withBrace, Parsed.atStart, push, run_open (by simp), proceed, closeBody, if_pos he,
      if_neg (by simp [hb])]
    exact .throw _
  | t :: more =>
    by_cases ho : t.kind = .openBrace
    · rw [Grammar.bodyOf_braced ho] at hread
      have hbrace : f.withBrace (t :: more) = .ofHead { f with braced := true } := by
        simp [withBrace, Token.is, ho]
      rw [hbrace]
      exact simulates_braced hσ more he rfl (hloop.redone true false) hread hk
    · have hbrace : f.withBrace (t :: more) = ⟨f, t :: more, Nat.le_refl _⟩ := by
        simp [withBrace, Token.is, ho, Parsed.atStart]
      rw [hbrace]
      by_cases ht : t.kind = .closeBrace
      · have hbroken : (Grammar.bodyOf lines f.construct f.line (t :: more)).read =
            ([.broken (.syntactic t.line (.statementBeforeBrace f.construct))], []) := by
          rw [Grammar.bodyOf]
          simp [Token.is, ht]
          rfl
        rw [hbroken] at hread
        cases hread
        rw [run_unfinished ht hb]
        exact .throw _
      · rw [Grammar.bodyOf_single ho ht] at hread
        cases hread
        simp only [statements, bind_assoc, pure_bind]
        refine simulates_statement hσ t more ht (by simp) (hloop.redone f.braced false) rfl ?_
        rw [run_completed (show BodyFrame.braced { f with done := false } = false from hb)]
        exact hk
termination_by 3 * ts.length + 1
decreasing_by
  · simp only [List.length_cons]
    omega
  · simp only [List.length_cons]
    omega

theorem simulates_tail (hσ : Backend.Counts issued) (ts : List Token) :
    SimulatesTail issued ctx lines ts := by
  intro f outer loop otherwise tail rest s k hf howned hstop hloop hread hk
  match ts with
  | [] =>
    rw [Grammar.conditionalTail_done (by simp)] at hread
    cases hread
    exact done_follows hσ hf howned hstop (by simp) hk
  | t :: more =>
    by_cases ht : t.kind = .keyword .elseWord
    · match more with
      | [] =>
        rw [Grammar.conditionalTail_lone ht] at hread
        cases hread
        simp only [conditionalTail, bind_assoc]
        refine closeArm_follows hσ hf howned hstop ht fun u meeting hu => ?_
        simp only [enterElse, enter_opens, opening, inScope, bind_assoc]
        refine .bind (changeNames_passes _) fun _ => ?_
        rw [withBrace, Parsed.atStart, push, run_open (by simp), proceed, closeBody, if_pos (by simp),
          if_neg (by simp)]
        exact .throw _
      | i :: others =>
        by_cases hi : i.kind = .keyword .ifWord
        · rw [Grammar.conditionalTail_elseIf ht hi] at hread
          cases hp : Grammar.parenthesized lines .elseIfArm others with
          | error d =>
            rw [hp] at hread
            cases hread
            simp only [conditionalTail, bind_assoc]
            refine closeArm_follows hσ hf howned hstop ht fun u meeting hu => ?_
            simp only [enterElse, Token.isKeyword, Token.is, hi, decide_true, if_true, enterAfter_error hp]
            exact .throw d
          | ok header =>
            obtain ⟨test, first⟩ := header
            rw [hp] at hread
            cases hread
            simp only [conditionalTail, bind_assoc]
            refine closeArm_follows hσ hf howned hstop ht fun u meeting hu => ?_
            simp only [enterElse, Token.isKeyword, Token.is, hi, decide_true, if_true, bind_assoc, pure_bind]
            exact elseIf_follows hσ hloop hp (simulates_body hσ first) (simulates_tail hσ _) (hk.mono hu)
        · rw [Grammar.conditionalTail_elseArm ht hi] at hread
          cases hread
          simp only [conditionalTail, bind_assoc]
          refine closeArm_follows hσ hf howned hstop ht fun u meeting hu => ?_
          simp only [enterElse, Token.isKeyword, Token.is, hi, decide_false, Bool.false_eq_true, if_false]
          rw [enter_opens]
          exact elseArm_follows hσ hloop (simulates_body hσ _) rfl (hk.mono hu)
    · rw [Grammar.conditionalTail_done (by simp [ht])] at hread
      cases hread
      exact done_follows hσ hf howned hstop (by simp [ht]) hk
termination_by 3 * ts.length + 1
decreasing_by
  · have := Grammar.parenthesized_length hp
    simp only [List.length_cons]
    omega
  · have := Grammar.parenthesized_length hp
    have := (Grammar.bodyOf lines .elseIfArm t.line first).rest_le
    simp only [List.length_cons]
    omega
  · simp only [List.length_cons]
    omega

end

/-- The statements of a body up to its last brace. -/
theorem entry_follows (hσ : Backend.Counts issued) {f : BodyFrame} (he : f.construct = .entry)
    (hb : f.braced = true) (hd : f.done = false) {s : BodyState σ} (ts : List Token) :
    Follows issued s (run ctx lines [f] ts)
      (statements ctx none (Grammar.entry lines f.line ts) >>= fun _ => finish ctx lines.stop) := by
  have hopen : (f.braced || !f.done) = true := by simp [hb]
  cases ts with
  | nil =>
    rw [Grammar.entry, run_open hopen, proceed, closeBody, if_neg (by simp [he]), if_pos (by simp [hd])]
    exact .throw _
  | cons t more =>
    by_cases ht : t.kind = .closeBrace
    · rw [Grammar.entry_close ht, run_open hopen, proceed]
      simp only [step, ht, closeBrace, closeFinished_open hopen, Parsed.atStart, pure_bind, hb, he,
        Bool.not_true, Bool.false_eq_true, if_false, if_true, List.tail_cons]
      cases more with
      | nil =>
        simp only [List.isEmpty_nil, if_true, pure_bind, Parsed.atEnd, statements]
        rw [run_open (by simp), proceed, closeBody, if_neg (by simp), if_neg (by simp)]
        exact .of_passes (finish_passes hσ ctx _)
      | cons _ _ => exact .throw _
    · rw [Grammar.entry_more ht]
      simp only [statements, bind_assoc]
      have hloop : Targets [f] none := by simp [Targets, nearestLoop?, he]
      have hread :
          (Grammar.statement lines f.construct t more).read =
            (Grammar.statement lines .entry t more).read := by
        rw [he]
      refine simulates_statement hσ t more ht hopen hloop hread ?_
      rw [completed, if_pos hb]
      have hle := (Grammar.statement lines .entry t more).rest_le
      exact entry_follows hσ he hb hd _
termination_by ts.length
decreasing_by
  simp only [List.length_cons]
  omega

/-- The frames of a body do what the tree of its statements says. -/
theorem compile_follows (hσ : Backend.Counts issued) (s : BodyState σ) (params : List Param)
    (opening stop : Nat) (tokens : List Token) :
    Follows issued s (compile ctx params opening stop tokens)
      (compileTree ctx params opening stop tokens) := by
  refine .bind (changeNames_passes _) fun _ =>
    .bind ((stepwise_passes hσ).declareParams opening params) fun _ => ?_
  have hrun : Follows issued s
      (run ctx ⟨lastLine stop tokens, stop⟩ [{ construct := .entry, line := opening, braced := true }] tokens)
      (statements ctx none (Stmt.ofTokens opening stop tokens) >>= fun _ => finish ctx stop) :=
    entry_follows hσ rfl rfl rfl tokens
  have hlocals : Follows issued s (do
      run ctx ⟨lastLine stop tokens, stop⟩ [{ construct := .entry, line := opening, braced := true }] tokens
      return (← get).names.locals) (do
        statements ctx none (Stmt.ofTokens opening stop tokens) >>= fun _ => finish ctx stop
        return (← get).names.locals) :=
    fun t t' ht htt => (hrun t t' ht htt).bind fun _ u u' huu _ =>
      (⟨congrArg Names.locals (BodyState.names_eq_of_undated huu), huu, trivial⟩ :
        EndsAlike issued (fun _ => True) (.ok u.names.locals u) (.ok u'.names.locals u'))
  simpa only [bind_assoc] using hlocals

end Simulation

end Body

end WorldScript
