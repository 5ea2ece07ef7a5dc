import WorldScript.Proofs.Script.Bodies
import WorldScript.Proofs.Script.Findings
import WorldScript.Proofs.Script.Typing

/-! # Declarations cover their tokens

What it means that tokens spell a declaration, and that declarations lie side by side in a script.  The
declarations of a script that compiles cover its tokens, and each of its bodies goes up to the brace that
balances its first one.  The other way round, declarations with accepted bodies are found just as they lie.
-/

namespace WorldScript

variable {o : Outline} {ds : List Declaration}

inductive Tiles {α : Type} (spelled : α → List Token → Prop) : List α → List Token → Prop
  | nil : Tiles spelled [] []
  | cons {a : α} {as : List α} {piece rest : List Token} (h : spelled a piece)
    (hrest : Tiles spelled as rest) :
      Tiles spelled (a :: as) (piece ++ rest)

inductive Param.Spelled : List Param → List Token → Prop
  | one {t n : Token} {ty : Ty} {name : String} (ht : t.kind = .typeName ty)
    (hn : n.kind = .identifier name) :
      Spelled [⟨name, ty⟩] [t, n]
  | more {t n comma : Token} {ty : Ty} {name : String} {ps : List Param} {ts : List Token}
      (ht : t.kind = .typeName ty) (hn : n.kind = .identifier name) (hc : comma.kind = .comma)
        (h : Spelled ps ts) :
      Spelled (⟨name, ty⟩ :: ps) (t :: n :: comma :: ts)

inductive Param.Enclosed : List Param → List Token → Prop
  | none {o c : Token} (ho : o.kind = .openParen) (hc : c.kind = .closeParen) : Enclosed [] [o, c]
  | some {o c : Token} {ps : List Param} {ts : List Token} (ho : o.kind = .openParen) (h : Spelled ps ts)
      (hc : c.kind = .closeParen) : Enclosed ps (o :: (ts ++ [c]))

structure Block.Spelled (b : Block) (piece : List Token) : Prop where
  tokens : ∃ t, t.kind = .openBrace ∧ piece = t :: b.tokens ∧ b.openLine = t.line
  closeLine : b.closeLine = lastLine b.openLine b.tokens
  closed : b.closed = true

inductive HandlerDecl.Spelled : HandlerDecl → List Token → Prop
  | mk {n : Token} {name : String} {ps : List Param} {b : Block} {params body : List Token}
      (hn : n.kind = .identifier name) (hp : Param.Enclosed ps params) (hb : b.Spelled body) :
      Spelled ⟨name, ps, b, n.line⟩ (n :: (params ++ body))

namespace Declaration

inductive Spelled : Declaration → List Token → Prop
  | bare {t n semi : Token} {ty : Ty} {name : String} (ht : t.kind = .typeName ty)
      (hn : n.kind = .identifier name) (hs : semi.kind = .semicolon) :
      Spelled (.global ⟨name, ty, t.line, []⟩) [t, n, semi]
  | initialized {t n sign semi : Token} {ty : Ty} {name : String} {run : List Token}
    (ht : t.kind = .typeName ty)
      (hn : n.kind = .identifier name) (hsign : sign.kind = .operator .assign) (hrun : Grammar.IsRun 0 run)
      (hs : semi.kind = .semicolon) :
        Spelled (.global ⟨name, ty, t.line, run⟩) (t :: n :: sign :: (run ++ [semi]))
  | typed {t n : Token} {ty : Ty} {name : String} {ps : List Param} {b : Block} {params body : List Token}
      (ht : t.kind = .typeName ty) (hn : n.kind = .identifier name) (hp : Param.Enclosed ps params)
      (hb : b.Spelled body) :
        Spelled (.function ⟨⟨name, some ty, ps⟩, b, t.line⟩) (t :: n :: (params ++ body))
  | untyped {n : Token} {name : String} {ps : List Param} {b : Block} {params body : List Token}
      (hn : n.kind = .identifier name) (hp : Param.Enclosed ps params) (hb : b.Spelled body) :
      Spelled (.function ⟨⟨name, none, ps⟩, b, n.line⟩) (n :: (params ++ body))
  | default {t o c : Token} {hs : List HandlerDecl} {inner : List Token} (ht : t.kind = .keyword .default)
      (ho : o.kind = .openBrace) (hh : Tiles HandlerDecl.Spelled hs inner) (hc : c.kind = .closeBrace) :
      Spelled (.state ⟨"default", t.line, hs⟩) (t :: o :: (inner ++ [c]))
  | state {t n o c : Token} {name : String} {hs : List HandlerDecl} {inner : List Token}
      (ht : t.kind = .keyword .state) (hn : n.stateName? = some name) (ho : o.kind = .openBrace)
      (hh : Tiles HandlerDecl.Spelled hs inner) (hc : c.kind = .closeBrace) :
      Spelled (.state ⟨name, t.line, hs⟩) (t :: n :: o :: (inner ++ [c]))

def blocks : Declaration → List Block
  | .global _ => []
  | .function d => [d.body]
  | .state d => d.handlers.map HandlerDecl.body

end Declaration

namespace Header

variable {run ts after : List Token} {ps : List Param} {t o : Token} {ty : Ty} {line : Nat}
  {inner : List Token}

theorem ty?_eq_some : t.ty? = some ty ↔ t.kind = .typeName ty := by
  unfold Token.ty?
  split <;> simp_all

theorem param_of_kinds (line : Nat) {n : Token} {name : String} (ht : t.kind = .typeName ty)
    (hn : n.kind = .identifier name) : param line [t, n] = .ok ⟨name, ty⟩ := by
  simp [param, Token.ty?, ht, Grammar.identifier?_eq_some.mpr hn]

theorem kinds_of_param {p : Param} (h : param line run = .ok p) :
    ∃ t n, run = [t, n] ∧ t.kind = .typeName p.ty ∧ n.kind = .identifier p.name := by
  unfold param at h
  split at h
  · rename_i t n
    split at h
    · rename_i ty name hty hname
      cases h
      exact ⟨t, n, rfl, ty?_eq_some.mp hty, Grammar.identifier?_eq_some.mp hname⟩
    · cases h
  · cases h

theorem spelled_of_mapM (h : (runsBetween .comma inner).mapM (param line) = .ok ps) :
    Param.Spelled ps inner := by
  induction ps generalizing inner with
  | nil =>
    have hlength := (mapM_getElem? h).1
    exact absurd (List.eq_nil_of_length_eq_zero hlength) (runsBetween_ne_nil _ _)
  | cons p ps ih =>
    cases hruns : runsBetween .comma inner with
    | nil => exact absurd hruns (runsBetween_ne_nil _ _)
    | cons first more =>
      rw [hruns] at h
      simp only [List.mapM_cons, bind_ok, pure_ok] at h
      obtain ⟨q, hq, qs, hqs, heq⟩ := h
      cases heq
      obtain ⟨t, n, rfl, ht, hn⟩ := kinds_of_param hq
      obtain ⟨rfl, rfl⟩ | ⟨s, rest, hs, rfl, hrest⟩ := runsBetween_eq_cons hruns
      · cases hqs
        exact .one ht hn
      · exact .more ht hn hs (ih (hrest ▸ hqs))

theorem mapM_of_spelled (line : Nat) (h : Param.Spelled ps inner) :
    (runsBetween .comma inner).mapM (param line) = .ok ps := by
  induction h with
  | one ht hn =>
    simp [runsBetween, Token.is, ht, hn, param_of_kinds line ht hn, bind, Except.bind, pure, Except.pure]
  | more ht hn hc _ ih =>
    simp [runsBetween, Token.is, ht, hn, hc, param_of_kinds line ht hn, ih, bind, Except.bind,
      pure, Except.pure]

theorem calm_of_spelled (h : Param.Spelled ps ts) : Calm ts := by
  induction h with
  | one ht hn =>
    exact calm_type (by simp [Token.ty?, ht]) (calm_identifier (by simp [Token.identifier?, hn]) .nil)
  | more ht hn hc _ ih =>
    refine calm_type (by simp [Token.ty?, ht]) (calm_identifier (by simp [Token.identifier?, hn]) ?_)
    exact ih.cons (by simp [Bracket.isOpening, hc]) (by simp [Bracket.closes?, hc]) (by simp [hc])

theorem enclosed_of_params (ho : o.kind = .openParen) (h : params o ts = .ok (ps, after)) :
    ∃ run, Param.Enclosed ps (o :: run) ∧ ts = run ++ after := by
  simp only [params, bind_ok, pure_ok] at h
  obtain ⟨⟨inner, rest⟩, hinside, qs, hlist, heq⟩ := h
  cases heq
  obtain ⟨c, hc, rfl⟩ := Bracket.inside_eq_ok hinside
  have hc := Grammar.closeParen_of_closes? ho hc
  unfold paramList at hlist
  split at hlist
  · rename_i hempty
    obtain rfl := List.isEmpty_iff.mp hempty
    cases hlist
    exact ⟨[c], .none ho hc, rfl⟩
  · exact ⟨inner ++ [c], .some ho (spelled_of_mapM hlist) hc, by simp⟩

theorem params_of_enclosed (h : Param.Enclosed ps (o :: run)) (after : List Token) :
    params o (run ++ after) = .ok (ps, after) := by
  cases h with
  | @none _ c ho hc =>
    have hinside : Bracket.inside o ([] ++ [c] ++ after) = .ok ([], after) :=
      Bracket.inside_of_balanced .nil (by simp [Bracket.closes?, hc, ho])
    simp only [params, bind_ok, pure_ok]
    exact ⟨_, hinside, [], rfl, rfl⟩
  | @some _ c _ ts ho hts hc =>
    have hinside : Bracket.inside o (ts ++ [c] ++ after) = .ok (ts, after) :=
      Bracket.inside_of_balanced (calm_of_spelled hts).balanced (by simp [Bracket.closes?, hc, ho])
    have hne : ts.isEmpty = false := by cases hts <;> rfl
    simp only [params, bind_ok, pure_ok]
    exact ⟨_, hinside, ps, by rw [paramList, hne, if_neg (by simp), mapM_of_spelled _ hts], rfl⟩

theorem isParamTail_of_spelled {c : Token} (h : Param.Spelled ps ts) (hc : c.kind = .closeParen)
    (hafter : startsWith .openBrace after = true) : isParamTail (ts ++ c :: after) = true := by
  induction h with
  | one ht hn => simp [isParamTail, Token.ty?, Token.identifier?, Token.is, ht, hn, hc, hafter]
  | more ht hn hcomma _ ih => simp [isParamTail, Token.ty?, Token.identifier?, Token.is, ht, hn, hcomma, ih]

theorem isSignature_of_enclosed (h : Param.Enclosed ps run) (hafter : startsWith .openBrace after = true) :
    isSignature (run ++ after) = true := by
  cases h with
  | none ho hc => simp [isSignature, Token.is, ho, hc, hafter]
  | @some o c _ ts ho hts hc =>
    have htail := isParamTail_of_spelled hts hc hafter
    cases hts with
    | one ht | more ht => simpa [isSignature, Token.is, ho, ht] using htail

end Header

theorem Block.Spelled.startsWith {b : Block} {piece : List Token} (h : b.Spelled piece) (next : List Token) :
    Header.startsWith .openBrace (piece ++ next) = true := by
  obtain ⟨t, ht, rfl, -⟩ := h.tokens
  simp [Header.startsWith, Token.is, ht]

namespace Declaration

variable {part : Part} {line : Nat} {inState : Bool} {ts next piece inner : List Token} {b : Block}
  {o t c : Token} {ps : List Param} {d : Declaration} {hs : List HandlerDecl} {name : String} {last : Nat}
  {ds : List Declaration} {params body rest tokens : List Token} {closed : Bool} {after : Option Part}

theorem spelled_of_block (hb : b.Accepted) (h : block part line inState ts = .ok (b, next)) :
    ∃ piece, b.Spelled piece ∧ ts = piece ++ next := by
  unfold block at h
  split at h
  · cases h
  · rename_i t rest
    split at h
    · rename_i ht
      have hrest := cut_append inState 1 true rest
      cases h
      exact ⟨t :: (cut inState 1 true rest).tokens,
        ⟨⟨t, of_decide_eq_true ht, rfl, rfl⟩, rfl, hb.cut_closed rfl⟩,
        by rw [List.cons_append, hrest]⟩
    · cases h

theorem block_of_spelled (hb : b.Accepted) (h : b.Spelled piece)
    (hnext : continuesBody inState next = false) :
    block part line inState (piece ++ next) = .ok (b, next) := by
  obtain ⟨t, ht, rfl, hopen⟩ := h.tokens
  have hbrace : t.is .openBrace = true := decide_eq_true ht
  rw [List.cons_append, block, if_pos hbrace, hb.cut_eq hnext]
  dsimp only
  rw [← hopen, ← h.closeLine, ← h.closed]

theorem spelled_of_withBody (hb : b.Accepted) (ho : o.kind = .openParen)
    (h : withBody part line inState o ts = .ok ((ps, b), next)) :
    ∃ params body, Param.Enclosed ps params ∧ b.Spelled body ∧ o :: ts = params ++ body ++ next := by
  simp only [withBody, bind_ok, pure_ok] at h
  obtain ⟨⟨qs, after⟩, hparams, ⟨b', rest⟩, hblock, heq⟩ := h
  cases heq
  obtain ⟨run, hrun, rfl⟩ := Header.enclosed_of_params ho hparams
  obtain ⟨body, hbody, rfl⟩ := spelled_of_block hb hblock
  exact ⟨o :: run, body, hrun, hbody, by simp⟩

theorem withBody_of_spelled (part : Part) (line : Nat) (hb : b.Accepted) (hp : Param.Enclosed ps params)
    (h : b.Spelled body) (hnext : continuesBody inState next = false) :
    ∃ o ts, o.kind = .openParen ∧ params ++ body ++ next = o :: ts ∧
      withBody part line inState o ts = .ok ((ps, b), next) := by
  obtain ⟨o, run, rfl, ho⟩ : ∃ o run, params = o :: run ∧ o.kind = .openParen := by
    cases hp with
    | none ho hc => exact ⟨_, _, rfl, ho⟩
    | some ho _ hc => exact ⟨_, _, rfl, ho⟩
  refine ⟨o, run ++ (body ++ next), ho, by simp, ?_⟩
  simp only [withBody, bind_ok, pure_ok]
  exact ⟨_, Header.params_of_enclosed hp _, _, block_of_spelled hb h hnext, rfl⟩

theorem spelled_of_handler {d : HandlerDecl} (hd : d.body.Accepted)
    (h : handler part t rest = .ok (d, next)) : ∃ piece, d.Spelled piece ∧ t :: rest = piece ++ next := by
  unfold handler at h
  split at h
  · rename_i name o more hn
    split at h
    · rename_i ho
      obtain ⟨⟨⟨ps, b⟩, after⟩, hbody, heq⟩ := map_ok.mp h
      cases heq
      obtain ⟨params, body, hp, hb, hts⟩ := spelled_of_withBody hd (of_decide_eq_true ho) hbody
      exact ⟨_, .mk hn hp hb, by simp [hts]⟩
    · cases h
  · cases h

theorem handler_of_spelled (part : Part) {d : HandlerDecl} (hd : d.body.Accepted) (h : d.Spelled piece)
    (hnext : continuesBody true next = false) :
    ∃ t rest, piece ++ next = t :: rest ∧ t.kind = .identifier d.name ∧
      handler part t rest = .ok (d, next) := by
  cases h with
  | @mk n name ps b params body hn hp hb =>
    obtain ⟨o, ts, ho, hts, hbody⟩ := withBody_of_spelled (.event name) n.line hd hp hb hnext
    refine ⟨n, o :: ts, by simp [← hts], hn, ?_⟩
    have hparen : o.is .openParen = true := decide_eq_true ho
    simp only [handler, hn, hparen, if_true]
    exact map_ok.mpr ⟨_, hbody, rfl⟩

theorem isHeader_handler {d : HandlerDecl} (h : d.Spelled piece) (next : List Token) :
    Header.isHeader (piece ++ next) = true := by
  cases h with
  | mk hn hp hb =>
    have hsignature := Header.isSignature_of_enclosed hp (hb.startsWith next)
    simpa [Header.isHeader, hn] using hsignature

theorem continuesBody_of_isHeader (h : Header.isHeader ts = true) : continuesBody inState ts = false := by
  cases ts with
  | nil => rfl
  | cons t rest => simp [continuesBody, h]

/-- What follows a handler in its state does not go on with its body. -/
theorem continuesBody_handlers (h : Tiles HandlerDecl.Spelled hs inner) (hc : c.kind = .closeBrace)
    (next : List Token) : continuesBody true (inner ++ c :: next) = false := by
  cases h with
  | nil => simp [continuesBody, hc]
  | cons hd _ =>
    rw [List.append_assoc]
    exact continuesBody_of_isHeader (isHeader_handler hd _)

theorem tiles_of_handlers (hall : ∀ d ∈ hs, d.body.Accepted) (hclosed : closed = true)
    (h : handlers part line closed ts = .ok (hs, next)) :
    ∃ inner c, Tiles HandlerDecl.Spelled hs inner ∧ c.kind = .closeBrace ∧ ts = inner ++ c :: next := by
  fun_induction handlers part line closed ts generalizing hs with
  | case1 | case2 =>
    -- the handler before is closed, so the state cannot end here
    subst hclosed
    cases h
  | case3 closed t rest _ hc =>
    cases h
    exact ⟨[], t, .nil, of_decide_eq_true hc, rfl⟩
  | case4 => cases h
  | case5 closed t rest _ _ d after hd _ ih =>
    obtain ⟨⟨others, final⟩, hothers, heq⟩ := map_ok.mp h
    cases heq
    obtain ⟨hbody, hrest⟩ := List.forall_mem_cons.mp hall
    obtain ⟨piece, hpiece, hts⟩ := spelled_of_handler hbody hd
    have hend : d.body.closed = true := by
      cases hpiece with
      | mk _ _ hb => exact hb.closed
    obtain ⟨inner, c, htiles, hc, rfl⟩ := ih hrest hend hothers
    exact ⟨piece ++ inner, c, .cons hpiece htiles, hc, by simp [hts]⟩

theorem handlers_of_tiles (hall : ∀ d ∈ hs, d.body.Accepted) (h : Tiles HandlerDecl.Spelled hs inner)
    (hc : c.kind = .closeBrace) : handlers part line closed (inner ++ c :: next) = .ok (hs, next) := by
  induction h generalizing closed with
  | nil =>
    have hheader : isStateHeader (c :: next) = false := by simp [isStateHeader, Token.isKeyword, Token.is, hc]
    have hbrace : c.is .closeBrace = true := decide_eq_true hc
    rw [List.nil_append, handlers, hheader, if_neg (by simp), if_pos hbrace]
  | @cons d ds piece rest hd hrest ih =>
    obtain ⟨hbody, hall⟩ := List.forall_mem_cons.mp hall
    obtain ⟨t, more, hts, ht, hhandler⟩ :=
      handler_of_spelled part hbody hd (continuesBody_handlers hrest hc next)
    have hheader : isStateHeader (t :: more) = false := by simp [isStateHeader, Token.isKeyword, Token.is, ht]
    have hbrace : t.is .closeBrace = false := by simp [Token.is, ht]
    rw [List.append_assoc, hts, handlers, hheader, if_neg (by simp), hbrace, if_neg (by simp)]
    split
    · rename_i he
      rw [hhandler] at he
      cases he
    · rename_i he
      rw [hhandler] at he
      cases he
      exact map_ok.mpr ⟨_, ih hall, rfl⟩

theorem spelled_of_stateTail (hall : ∀ b ∈ d.blocks, b.Accepted)
    (h : stateTail name line ts = .ok (d, next)) :
    ∃ hs o inner c, d = .state ⟨name, line, hs⟩ ∧ o.kind = .openBrace ∧ Tiles HandlerDecl.Spelled hs inner ∧
      c.kind = .closeBrace ∧ ts = o :: (inner ++ [c]) ++ next := by
  unfold stateTail at h
  split at h
  · cases h
  · split at h
    · rename_i ho
      obtain ⟨⟨hs, after⟩, hhandlers, heq⟩ := map_ok.mp h
      cases heq
      have hall : ∀ d ∈ hs, d.body.Accepted := fun d hd => hall _ (List.mem_map_of_mem hd)
      obtain ⟨inner, c, htiles, hc, rfl⟩ := tiles_of_handlers hall rfl hhandlers
      exact ⟨hs, _, inner, c, rfl, of_decide_eq_true ho, htiles, hc, by simp⟩
    · cases h

theorem stateTail_of_tiles (name : String) (line : Nat) (hall : ∀ d ∈ hs, d.body.Accepted)
    (ho : o.kind = .openBrace) (h : Tiles HandlerDecl.Spelled hs inner) (hc : c.kind = .closeBrace)
    (next : List Token) :
    stateTail name line (o :: (inner ++ [c] ++ next)) = .ok (.state ⟨name, line, hs⟩, next) := by
  have hbrace : o.is .openBrace = true := decide_eq_true ho
  rw [stateTail, if_pos hbrace, List.append_assoc, List.singleton_append, handlers_of_tiles hall h hc]
  rfl

/-- The semicolon of an initializer is found as that of a statement is. -/
theorem initializer_toOption (name after : String) (lines : BodyLines) (last depth : Nat) (ts : List Token) :
    (initializer name last depth ts).toOption = (Grammar.untilSemicolon lines after depth ts).toOption := by
  induction ts generalizing depth with
  | nil => rfl
  | cons t rest ih =>
    have hmap (d : Nat) : (initializer.cons t (initializer name last d rest)).toOption =
        ((Grammar.untilSemicolon lines after d rest).map fun p => (t :: p.1, p.2)).toOption := by
      have hrest := ih d
      cases hi : initializer name last d rest <;> cases hu : Grammar.untilSemicolon lines after d rest <;>
        simp_all [initializer.cons, Except.map, Except.toOption]
    rw [initializer, Grammar.untilSemicolon]
    cases hk : t.kind with
    | semicolon =>
      by_cases hd : depth = 0
      · simp [hd, Except.toOption]
      · simpa [hd] using hmap depth
    | openBrace | closeBrace => rfl
    | identifier | keyword | typeName | integer | float | string | operator | openParen
    | closeParen | openBracket
    | closeBracket | comma => exact hmap _

theorem initializer_ok_iff {run : List Token} :
    initializer name last 0 ts = .ok (run, next) ↔ Grammar.IsRun 0 run ∧ Grammar.Ends run ts next := by
  have hoption {r : Except Diagnostic (List Token × List Token)} {p : List Token × List Token} :
      r = .ok p ↔ r.toOption = some p := by cases r <;> simp [Except.toOption]
  rw [hoption, initializer_toOption name "" ⟨0, 0⟩, ← hoption]
  exact ⟨Grammar.run_of_untilSemicolon, fun h => Grammar.untilSemicolon_of_run h.1 h.2⟩

theorem spelled_of_functionTail {returns : Option Ty} (hall : ∀ b ∈ d.blocks, b.Accepted)
    (ho : o.kind = .openParen) (h : functionTail returns name line o ts = .ok (d, next)) :
    ∃ ps b params body,
      d = .function ⟨⟨name, returns, ps⟩, b, line⟩ ∧ Param.Enclosed ps params ∧ b.Spelled body ∧
      o :: ts = params ++ body ++ next := by
  simp only [functionTail, bind_ok, pure_ok] at h
  obtain ⟨⟨⟨ps, b⟩, after⟩, hbody, heq⟩ := h
  cases heq
  obtain ⟨params, body, hp, hb, hts⟩ := spelled_of_withBody (hall b (by simp [blocks])) ho hbody
  exact ⟨ps, b, params, body, rfl, hp, hb, hts⟩

theorem functionTail_of_spelled (returns : Option Ty) (name : String) (line : Nat) (hb : b.Accepted)
    (hp : Param.Enclosed ps params) (h : b.Spelled body) (hnext : continuesBody false next = false) :
    ∃ o ts, o.kind = .openParen ∧ params ++ body ++ next = o :: ts ∧
      functionTail returns name line o ts = .ok (.function ⟨⟨name, returns, ps⟩, b, line⟩, next) := by
  obtain ⟨o, ts, ho, hts, hbody⟩ := withBody_of_spelled (.function name) line hb hp h hnext
  refine ⟨o, ts, ho, hts, ?_⟩
  simp only [functionTail, bind_ok, pure_ok]
  exact ⟨_, hbody, rfl⟩

theorem spelled_of_typedTail {ty : Ty} (hall : ∀ b ∈ d.blocks, b.Accepted) (ht : t.kind = .typeName ty)
    (h : typedTail ty t.line last ts = .ok (d, next)) :
    ∃ piece, d.Spelled piece ∧ t :: ts = piece ++ next := by
  unfold typedTail at h
  split at h
  · cases h
  · rename_i n rest
    split at h
    · cases h
    · rename_i name hname
      have hn := Grammar.identifier?_eq_some.mp hname
      split at h
      · cases h
      · rename_i sign more
        split at h
        · rename_i ho
          obtain ⟨ps, b, params, body, rfl, hp, hb, hts⟩ := spelled_of_functionTail hall ho h
          exact ⟨_, .typed ht hn hp hb, by simp [hts]⟩
        · rename_i hs
          cases h
          exact ⟨_, .bare ht hn hs, rfl⟩
        · rename_i hsign
          obtain ⟨⟨run, after⟩, hinit, heq⟩ := map_ok.mp h
          cases heq
          obtain ⟨hrun, semi, hs, rfl⟩ := initializer_ok_iff.mp hinit
          exact ⟨_, .initialized ht hn hsign hrun hs, by simp⟩
        · cases h

/-- A declaration that is read is spelled by the tokens before the next one. -/
theorem spelled_of_ofToken (hall : ∀ b ∈ d.blocks, b.Accepted)
    (h : ofToken last after t rest = .ok (d, next)) :
    ∃ piece, d.Spelled piece ∧ t :: rest = piece ++ next := by
  unfold ofToken at h
  split at h
  · rename_i ht
    exact spelled_of_typedTail hall ht h
  · rename_i hn
    split at h
    · rename_i ho
      obtain ⟨ps, b, params, body, rfl, hp, hb, hts⟩ := spelled_of_functionTail hall (of_decide_eq_true ho) h
      exact ⟨_, .untyped hn hp hb, by simp [hts]⟩
    · cases h
  · rename_i ht
    obtain ⟨hs, o, inner, c, rfl, ho, hh, hc, rfl⟩ := spelled_of_stateTail hall h
    exact ⟨_, .default ht ho hh hc, by simp⟩
  · rename_i ht
    split at h
    · rename_i hn
      obtain ⟨hs, o, inner, c, rfl, ho, hh, hc, rfl⟩ := spelled_of_stateTail hall h
      exact ⟨_, .state ht hn ho hh hc, by simp⟩
    · cases h
  · cases h
  · cases h
  · cases h

/-- A declaration that is spelled is read, unless what follows looks like a part of it. -/
theorem ofToken_of_spelled (last : Nat) (after : Option Part) (hall : ∀ b ∈ d.blocks, b.Accepted)
    (h : d.Spelled piece) (hnext : continuesBody false next = false) :
    ∃ t rest, piece ++ next = t :: rest ∧ ofToken last after t rest = .ok (d, next) := by
  cases h with
  | bare ht hn hs =>
    refine ⟨_, _, rfl, ?_⟩
    simp [ofToken, typedTail, ht, hs, Grammar.identifier?_eq_some.mpr hn]
  | @initialized t n sign semi ty name run ht hn hsign hrun hs =>
    have hinit : initializer name last 0 (run ++ semi :: next) = .ok (run, next) :=
      initializer_ok_iff.mpr ⟨hrun, semi, hs, rfl⟩
    refine ⟨t, _, rfl, ?_⟩
    simp [ofToken, typedTail, ht, hsign, Grammar.identifier?_eq_some.mpr hn, hinit, Except.map]
  | @typed t n ty name ps b params body ht hn hp hb =>
    obtain ⟨o, ts, ho, hts, hfunction⟩ :=
      functionTail_of_spelled (some ty) name t.line (hall b (by simp [blocks])) hp hb hnext
    refine ⟨t, n :: o :: ts, by simp [← hts], ?_⟩
    simpa [ofToken, typedTail, ht, ho, Grammar.identifier?_eq_some.mpr hn] using hfunction
  | @untyped n name ps b params body hn hp hb =>
    obtain ⟨o, ts, ho, hts, hfunction⟩ :=
      functionTail_of_spelled none name n.line (hall b (by simp [blocks])) hp hb hnext
    refine ⟨n, o :: ts, by simp [← hts], ?_⟩
    simpa [ofToken, hn, Token.is, ho] using hfunction
  | @default t o c hs inner ht ho hh hc =>
    have hstate :=
      stateTail_of_tiles "default" t.line (fun d hd => hall _ (List.mem_map_of_mem hd)) ho hh hc next
    exact ⟨t, _, rfl, by simpa [ofToken, ht] using hstate⟩
  | @state t n o c name hs inner ht hn ho hh hc =>
    have hstate := stateTail_of_tiles name t.line (fun d hd => hall _ (List.mem_map_of_mem hd)) ho hh hc next
    exact ⟨t, _, rfl, by simpa [ofToken, ht, hn] using hstate⟩

/-- What follows a function does not go on with its body. -/
theorem continuesBody_declarations (h : Tiles Spelled ds tokens) : continuesBody false tokens = false := by
  cases h with
  | nil => rfl
  | @cons d ds piece rest hd _ =>
    cases hd with
    | bare ht | initialized ht | typed ht => simp [continuesBody, ht]
    | untyped hn hp hb =>
      refine continuesBody_of_isHeader ?_
      simpa [Header.isHeader, hn] using Header.isSignature_of_enclosed hp (hb.startsWith rest)
    | default ht => simp [continuesBody, ht]
    | state ht hn ho =>
      refine continuesBody_of_isHeader ?_
      simp [Header.isHeader, Header.startsWith, Token.is, ht, hn, ho]

theorem tiles_of_listFrom (hall : ∀ d ∈ ds, ∀ b ∈ d.blocks, b.Accepted)
    (h : listFrom last after ts = .ok ds) : Tiles Spelled ds ts := by
  fun_induction listFrom last after ts generalizing ds with
  | case1 =>
    cases h
    exact .nil
  | case2 => cases h
  | case3 after t rest d next hd _ ih =>
    obtain ⟨others, hothers, rfl⟩ := map_ok.mp h
    obtain ⟨hblocks, hall⟩ := List.forall_mem_cons.mp hall
    obtain ⟨piece, hpiece, hts⟩ := spelled_of_ofToken hblocks hd
    rw [hts]
    exact .cons hpiece (ih hall hothers)

theorem listFrom_of_tiles (last : Nat) (after : Option Part) (hall : ∀ d ∈ ds, ∀ b ∈ d.blocks, b.Accepted)
    (h : Tiles Spelled ds tokens) : listFrom last after tokens = .ok ds := by
  induction h generalizing after with
  | nil => rw [listFrom]
  | @cons d ds piece rest hd hrest ih =>
    obtain ⟨hblocks, hall⟩ := List.forall_mem_cons.mp hall
    obtain ⟨t, more, hts, hfirst⟩ :=
      ofToken_of_spelled last after hblocks hd (continuesBody_declarations hrest)
    rw [hts, listFrom]
    split
    · rename_i he
      rw [hfirst] at he
      cases he
    · rename_i he
      rw [hfirst] at he
      cases he
      exact map_ok.mpr ⟨_, ih _ hall, rfl⟩

def global? : Declaration → Option GlobalDecl
  | .global d => some d
  | .function _ | .state _ => none

def function? : Declaration → Option FunctionDecl
  | .function d => some d
  | .global _ | .state _ => none

def state? : Declaration → Option StateDecl
  | .state d => some d
  | .global _ | .function _ => none

end Declaration

structure Outline.Lists (o : Outline) (ds : List Declaration) : Prop where
  globals : o.globals = ds.filterMap Declaration.global?
  functions : o.functions = ds.filterMap Declaration.function?
  states : o.states = ds.filterMap Declaration.state?

theorem Outline.Lists.add {more : Outline} {d : Declaration} (h : o.Lists ds) (hadd : o.add d = .ok more) :
    more.Lists (ds ++ [d]) := by
  obtain ⟨hglobals, hfunctions, hstates⟩ := h
  cases d with
  | global d | function d | state d =>
    obtain ⟨names, -, rfl⟩ := map_ok.mp hadd
    constructor <;>
      simp [hglobals, hfunctions, hstates, Declaration.global?, Declaration.function?, Declaration.state?]

theorem Outline.Lists.addAll {before : List Declaration} (h : o.Lists before) (hnone : (o.addAll ds).2 = []) :
    (o.addAll ds).1.Lists (before ++ ds) := by
  induction ds generalizing o before with
  | nil => simpa [Outline.addAll] using h
  | cons d rest ih =>
    cases hadd : o.add d with
    | error problem => simp [Outline.addAll, hadd] at hnone
    | ok more =>
      simp only [Outline.addAll, hadd] at hnone ⊢
      simpa using ih (h.add hadd) hnone

namespace Script

theorem accepted_of_bodyCode {α : Type} {ctx : BodyContext} {names : Names} {params : List Param}
    {b : Block} {f : Chunk → α} (h : Session.problem? ((bodyCode .chunks ctx names params b).map f) = none) :
    b.Accepted := by
  cases hcode : bodyCode .chunks ctx names params b with
  | error d =>
    rw [hcode] at h
    cases h
  | ok code => exact .of_bodyCode hcode

/-- Where no part has a problem, every body is accepted. -/
theorem accepted_of_jobs {env : Env} {o : Outline} {ds : List Declaration} (ho : o.Lists ds)
    (h : (jobs o).filterMap (Job.problem? env) = []) : ∀ d ∈ ds, ∀ b ∈ d.blocks, b.Accepted := by
  have hnone : ∀ j ∈ jobs o, j.problem? env = none := List.filterMap_eq_nil_iff.mp h
  intro d hd b hb
  cases d with
  | global d => cases hb
  | function d =>
    obtain rfl := List.mem_singleton.mp hb
    have hd : d ∈ o.functions := ho.functions ▸ List.mem_filterMap.mpr ⟨_, hd, rfl⟩
    have hjob := hnone (.function d) (by simp [jobs, hd])
    exact accepted_of_bodyCode hjob
  | state d =>
    obtain ⟨handler, hh, rfl⟩ := List.mem_map.mp hb
    have hd : d ∈ o.states := ho.states ▸ List.mem_filterMap.mpr ⟨_, hd, rfl⟩
    have hjob := hnone (.handler handler) (by
      simp only [jobs, List.mem_append, List.mem_flatMap]
      exact .inr ⟨d, hd, List.mem_map_of_mem hh⟩)
    exact accepted_of_bodyCode hjob

/-- A source that compiles can be read, and nothing is wrong with its declarations. -/
theorem declarations_of_compile {registry : Registry} {options : CompileOptions}
    {replacements : Replacements} {source : String} {p : Program Chunk}
    (h : compile registry options replacements source = .ok p) :
    ∃ directives tokens ds, Reads registry replacements source directives tokens ∧
      Declaration.listOfTokens tokens = .ok ds ∧
      outlineFindings registry (Directive.applyAll options.visibility directives)
        (lastLine 1 tokens) ds = [] := by
  have hreport := compile_reported registry options replacements source
  rw [h] at hreport
  have hnone : findings registry options.visibility replacements source = [] := by
    rcases List.take_eq_nil_iff.mp hreport.symm with hlimit | hnone
    · exact absurd hlimit (Nat.ne_of_gt options.limit_pos)
    · exact hnone
  unfold findings at hnone
  split at hnone
  · cases hnone
  · rename_i directives hdirectives
    split at hnone
    · cases hnone
    · rename_i tokens htokens
      unfold tokenFindings at hnone
      split at hnone
      · cases hnone
      · rename_i hlong
        split at hnone
        · cases hnone
        · rename_i ds hds
          exact ⟨directives, tokens, ds, ⟨hdirectives, htokens, hlong⟩, hds, hnone⟩

/-- The declarations of a script that compiles lie side by side in its tokens, and all of them are collected;
each body ends with the brace that balances its first one.  And declarations with accepted bodies that lie
side by side are read as they lie. -/
theorem declarations_exact :
    (∀ registry options replacements source p, compile registry options replacements source = .ok p →
      ∃ directives tokens ds, Reads registry replacements source directives tokens ∧
        Declaration.listOfTokens tokens = .ok ds ∧ (Outline.ofDeclarations ds).1.Lists ds ∧
        Tiles Declaration.Spelled ds tokens ∧ ∀ d ∈ ds, ∀ b ∈ d.blocks, b.Accepted ∧ b.Closes) ∧
    ∀ ds tokens, Tiles Declaration.Spelled ds tokens → (∀ d ∈ ds, ∀ b ∈ d.blocks, b.Accepted) →
      Declaration.listOfTokens tokens = .ok ds ∧ ∀ d ∈ ds, ∀ b ∈ d.blocks, b.Closes := by
  constructor
  · intro registry options replacements source p h
    obtain ⟨directives, tokens, ds, hreads, hds, hnone⟩ := declarations_of_compile h
    obtain ⟨hnames, hrest⟩ := List.append_eq_nil_iff.mp hnone
    obtain ⟨-, hjobs⟩ := List.append_eq_nil_iff.mp hrest
    have hempty : Outline.empty.Lists [] := ⟨rfl, rfl, rfl⟩
    have hlists : (Outline.ofDeclarations ds).1.Lists ds := hempty.addAll hnames
    have haccepted := accepted_of_jobs hlists hjobs
    refine ⟨directives, tokens, ds, hreads, hds, hlists, Declaration.tiles_of_listFrom haccepted hds, ?_⟩
    exact fun d hd b hb => ⟨haccepted d hd b hb, (haccepted d hd b hb).closes⟩
  · intro ds tokens htiles haccepted
    exact ⟨Declaration.listFrom_of_tiles _ _ haccepted htiles, fun d hd b hb => (haccepted d hd b hb).closes⟩

end Script

namespace Sample

def nested : String :=
  "f() { for (; 1; f()) { } if (2) { f(); } else { integer n; } } default { state_entry() { { state default; } } }"

theorem nested_read : (∃ p, Script.compile registry options [] nested = .ok p) ∧
    ∃ tokens ds, Script.Reads registry [] nested [] tokens ∧ Declaration.listOfTokens tokens = .ok ds ∧
      (ds.flatMap Declaration.blocks).map (fun b => b.tokens.length) = [28, 6] := by
  have hs : nested.toList = _ := String.toList_ofList
  obtain ⟨tokens, hreads, h⟩ := Script.exists_reads registry hs (by decide +kernel) (fun ts =>
    (Declaration.listOfTokens ts).toOption.any fun ds =>
      (ds.flatMap Declaration.blocks).map (fun b => b.tokens.length) = [28, 6]) (by decide +kernel)
  obtain ⟨ds, hds, hlengths⟩ := ok_of_any h
  rw [Script.compile_of_plain hs (by decide +kernel)]
  exact ⟨ok_of_isOk (by decide +kernel), tokens, ds, hreads, hds, of_decide_eq_true hlengths⟩

end Sample

/-- Every body of this script goes up to its own brace, past the braces in it. -/
theorem Script.nested_declarations_exact : ∃ p tokens ds,
    compile Sample.registry Sample.options [] Sample.nested = .ok p ∧ Tiles Declaration.Spelled ds tokens ∧
      (∀ d ∈ ds, ∀ b ∈ d.blocks, b.Accepted ∧ b.Closes) ∧ Declaration.listOfTokens tokens = .ok ds ∧
      (ds.flatMap Declaration.blocks).map (fun b => b.tokens.length) = [28, 6] := by
  obtain ⟨⟨p, hp⟩, tokens, ds, hread, hds, hlengths⟩ := Sample.nested_read
  obtain ⟨_, tokens', ds', hreads, hds', -, htiles, hblocks⟩ := declarations_exact.1 _ _ _ _ p hp
  obtain rfl := hread.unique hreads
  rw [hds'] at hds
  cases hds
  have hagain := declarations_exact.2 ds tokens htiles fun d hd b hb => (hblocks d hd b hb).1
  exact ⟨p, tokens, ds, hp, htiles, hblocks, hagain.1, hlengths⟩

end WorldScript
