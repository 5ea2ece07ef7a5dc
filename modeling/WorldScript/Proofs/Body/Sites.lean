import WorldScript.Proofs.Body.Braces

/-! # Where statements jump and define labels

The jumps and the definitions of labels of a body, wherever they are nested, come in the order in which
they are written.  A body may be written anew with an empty statement in place of each of them.
-/

namespace WorldScript

inductive Site where
  | jump (name : String)
  | label (name : String)
deriving DecidableEq

def Site.label? : Site → Option String
  | .jump _ => none
  | .label name => some name

def labelsOf (sites : List Site) : List String := sites.filterMap Site.label?

@[simp] theorem labelsOf_append (a b : List Site) : labelsOf (a ++ b) = labelsOf a ++ labelsOf b :=
  List.filterMap_append

theorem mem_labelsOf {name : String} {sites : List Site} : name ∈ labelsOf sites ↔ .label name ∈ sites := by
  constructor
  · intro h
    obtain ⟨site, hs, hn⟩ := List.mem_filterMap.mp h
    cases site with
    | jump other => cases hn
    | label other =>
      cases hn
      exact hs
  · intro h
    exact List.mem_filterMap.mpr ⟨_, h, rfl⟩

structure Resolvable (sites : List Site) : Prop where
  once : (labelsOf sites).Nodup
  defined : ∀ name, .jump name ∈ sites → .label name ∈ sites

def Term.sites : Term → List Site
  | .label n _ => [.label n]
  | _ => []

theorem Term.sites_of_not_isLabel {t : Term} (h : t.isLabel = false) : t.sites = [] := by
  cases t with
  | label => cases h
  | literal | name | call | list | angle | cast | unary | step | member | binary | assign
  | broken | brokenAfter =>
    rfl

mutual

def Stmt.sites : Stmt → List Site
  | .jump name _ => [.jump name]
  | .expr term _ => term.sites
  | .block body => Stmt.allSites body
  | .branch _ body tail _ => Stmt.allSites body ++ tail.sites
  | .whileLoop _ body _ _ => Stmt.allSites body
  | .forLoop _ _ _ body _ _ => Stmt.allSites body
  | .doLoop body _ _ _ => Stmt.allSites body
  | .empty | .declare _ _ _ _ | .ret _ _ | .changeState _ _ | .breakLoop _ | .continueLoop _ | .broken _ => []
termination_by structural s => s

def Stmt.allSites : List Stmt → List Site
  | [] => []
  | s :: rest => s.sites ++ Stmt.allSites rest
termination_by structural ss => ss

def Tail.sites : Tail → List Site
  | .done _ => []
  | .elseIf _ body tail _ => Stmt.allSites body ++ tail.sites
  | .elseArm body _ _ => Stmt.allSites body
termination_by structural t => t

end

mutual

def Stmt.blanked : Stmt → Stmt
  | .jump _ _ => .empty
  | .expr term line => if term.isLabel then .empty else .expr term line
  | .block body => .block (Stmt.allBlanked body)
  | .branch term body tail line => .branch term (Stmt.allBlanked body) tail.blanked line
  | .whileLoop term body line after => .whileLoop term (Stmt.allBlanked body) line after
  | .forLoop init test step body line after => .forLoop init test step (Stmt.allBlanked body) line after
  | .doLoop body term line test => .doLoop (Stmt.allBlanked body) term line test
  | .empty => .empty
  | .declare ty name init line => .declare ty name init line
  | .ret value line => .ret value line
  | .changeState name line => .changeState name line
  | .breakLoop line => .breakLoop line
  | .continueLoop line => .continueLoop line
  | .broken problem => .broken problem
termination_by structural s => s

def Stmt.allBlanked : List Stmt → List Stmt
  | [] => []
  | s :: rest => s.blanked :: Stmt.allBlanked rest
termination_by structural ss => ss

def Tail.blanked : Tail → Tail
  | .done after => .done after
  | .elseIf term body tail line => .elseIf term (Stmt.allBlanked body) tail.blanked line
  | .elseArm body line after => .elseArm (Stmt.allBlanked body) line after
termination_by structural t => t

end

namespace Grammar

def Phrase.blanked : Phrase → Phrase
  | .stmt s => .stmt s.blanked
  | .block b => .block (Stmt.allBlanked b)
  | .body b => .body (Stmt.allBlanked b)
  | .tail t => .tail t.blanked

/-- The first tokens are the same, or a semicolon on the same line stands for the first token. -/
inductive SameStart : List Token → List Token → Prop
  | nil : SameStart [] []
  | same (t : Token) (ts ts' : List Token) : SameStart (t :: ts) (t :: ts')
  | blank {t t' : Token} (ts ts' : List Token) (hk : t'.kind = .semicolon) (hl : t'.line = t.line) :
      SameStart (t :: ts) (t' :: ts')

namespace SameStart

variable {ts ts' : List Token}

theorem firstLine (h : SameStart ts ts') (stop : Nat) :
    WorldScript.firstLine stop ts' = WorldScript.firstLine stop ts := by
  cases h with
  | nil => rfl
  | same => rfl
  | blank _ _ _ hl => exact hl

theorem first {kind : TokenKind} {t : Token} (h : SameStart (t :: ts) ts') (hk : t.kind ≠ kind)
    (hs : kind ≠ .semicolon) : ∃ t' more, ts' = t' :: more ∧ t'.kind ≠ kind := by
  cases h with
  | same => exact ⟨t, _, rfl, hk⟩
  | blank _ more hsemi hl => exact ⟨_, more, rfl, hsemi ▸ hs.symm⟩

theorem noElse (h : SameStart ts ts') (hts : NoElse ts) : NoElse ts' := by
  cases h with
  | nil => exact hts
  | same t us us' =>
    rintro _ _ ⟨⟩
    exact hts t us rfl
  | blank us us' hk hl =>
    rintro _ _ ⟨⟩
    rw [hk]
    decide

end SameStart

theorem Plain.blanked {ts rest : List Token} {s : Stmt} (h : Plain ts s rest) :
    s.blanked = s ∨ s.blanked = .empty := by
  cases h with
  | empty | declare | declareInit | ret | retValue | changeState | breakLoop | continueLoop => exact .inl rfl
  | jump => exact .inr rfl
  | expr =>
    unfold Stmt.blanked
    split
    · exact .inr rfl
    · exact .inl rfl

/-- What is written can be written with empty statements instead.  Each of them stands where its statement
began, so that all lines stay. -/
theorem Spells.blanked {stop : Nat} {ts rest : List Token} {p : Phrase} (h : Spells stop ts p rest)
    {rest' : List Token} (hrest : SameStart rest rest') :
    ∃ ts', SameStart ts ts' ∧ Spells stop ts' p.blanked rest' := by
  induction h generalizing rest' with
  | plain h =>
    obtain ⟨t, us, rfl, hus⟩ := h.followed
    obtain hb | hb := h.blanked
    · refine ⟨_, .same t _ (us ++ rest'), ?_⟩
      rw [Phrase.blanked, hb]
      exact .plain (hus rest')
    · refine ⟨⟨.semicolon, ";", t.line⟩ :: rest', .blank _ _ rfl rfl, ?_⟩
      rw [Phrase.blanked, hb]
      exact .plain (.empty rfl)
  | braces ht _ ih =>
    obtain ⟨ts', -, hb⟩ := ih hrest
    exact ⟨_, .same _ _ _, .braces ht hb⟩
  | branch ht hc hne _ _ ihb ihtail =>
    obtain ⟨head, rfl, hhead⟩ := hc.followed
    obtain ⟨next', hnext, htail⟩ := ihtail hrest
    obtain ⟨first', -, hb⟩ := ihb hnext
    exact ⟨_, .same _ _ _, .branch ht (hhead first') hne hb htail⟩
  | whileLoop ht hc hne _ ih =>
    obtain ⟨head, rfl, hhead⟩ := hc.followed
    obtain ⟨first', -, hb⟩ := ih hrest
    refine ⟨_, .same _ _ (head ++ first'), ?_⟩
    have hloop := Spells.whileLoop ht (hhead first') hne hb
    rwa [hrest.firstLine] at hloop
  | forLoop ht hc hh _ ih =>
    obtain ⟨head, rfl, hhead⟩ := hc.followed
    obtain ⟨first', -, hb⟩ := ih hrest
    refine ⟨_, .same _ _ (head ++ first'), ?_⟩
    have hloop := Spells.forLoop ht (hhead first') hh hb
    rwa [hrest.firstLine] at hloop
  | doLoop ht _ hl hc hne he ih =>
    obtain ⟨head, rfl, hhead⟩ := hc.followed
    obtain ⟨semi, hs, rfl⟩ := he
    obtain ⟨ts', -, hb⟩ := ih (.same _ _ (head ++ semi :: rest'))
    exact ⟨_, .same _ _ _, .doLoop ht hb hl (hhead _) hne ⟨semi, hs, rfl⟩⟩
  | close ht => exact ⟨_, .same _ _ _, .close ht⟩
  | more _ _ ihs ihb =>
    obtain ⟨next', hnext, hb⟩ := ihb hrest
    obtain ⟨ts', hts, hs⟩ := ihs hnext
    exact ⟨ts', hts, .more hs hb⟩
  | braced ht _ ih =>
    obtain ⟨ts', -, hb⟩ := ih hrest
    exact ⟨_, .same _ _ _, .braced ht hb⟩
  | single ht _ ih =>
    obtain ⟨ts', hts, hs⟩ := ih hrest
    obtain ⟨t', more, rfl, ht'⟩ := hts.first ht (by decide)
    exact ⟨_, hts, .single ht' hs⟩
  | @done ts h =>
    refine ⟨rest', hrest, ?_⟩
    have hdone : Spells stop rest' (.tail (.done (WorldScript.firstLine stop rest'))) rest' :=
      .done (hrest.noElse h)
    rwa [hrest.firstLine] at hdone
  | elseIf ht hi hc hne _ _ ihb ihtail =>
    obtain ⟨head, rfl, hhead⟩ := hc.followed
    obtain ⟨next', hnext, htail⟩ := ihtail hrest
    obtain ⟨first', -, hb⟩ := ihb hnext
    exact ⟨_, .same _ _ _, .elseIf ht hi (hhead first') hne hb htail⟩
  | elseArm ht hi _ ih =>
    obtain ⟨ts', hts, hb⟩ := ih hrest
    obtain ⟨i', more, rfl, hi'⟩ := hts.first hi (by decide)
    refine ⟨_, .same _ _ (i' :: more), ?_⟩
    have harm := Spells.elseArm ht hi' hb
    rwa [hrest.firstLine] at harm

end Grammar

theorem Stmt.Spelled.blanked {stop : Nat} {tokens : List Token} {body : List Stmt}
    (h : Stmt.Spelled stop tokens body) : ∃ tokens', Stmt.Spelled stop tokens' (Stmt.allBlanked body) := by
  obtain ⟨tokens', -, hb⟩ := Grammar.Spells.blanked h .nil
  exact ⟨tokens', hb⟩

end WorldScript
