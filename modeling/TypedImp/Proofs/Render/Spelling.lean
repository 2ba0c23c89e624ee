import TypedImp.Proofs.Outcome
import TypedImp.Proofs.Render.Parentheses
import TypedImp.Typing.Expr

/-!
# Spellings

Which expressions can be told from their text: those with known variables, functions and members
that are spelled apart (`SpelledApart`), whose ungrouped operators nest by a rule
(`Typed.Expr.Legible`). Such an expression is written as a row of tokens (`spells_of_check`).
-/

namespace TypedImp

namespace Typed

/-- The operators of an expression that no parentheses stand around, in the order of its text. -/
def Expr.operators : Expr → List Operator
  | .binary operator left right _ => left.operators ++ operator :: right.operators
  | _ => []

mutual

/-- The ungrouped operators nest by a rule, which says how many of them are to the left of the one
that is applied last. No ungrouped operator is part of a receiver, and no decimal is written as a
whole number. -/
def Expr.Legible (rule : List Operator → Nat) : Expr → Prop
  | .literal value _ => value.Apart
  | .group inner _ => inner.Legible rule
  | .binary operator left right _ =>
    left.Legible rule ∧ right.Legible rule ∧
      left.operators.length = rule (left.operators ++ operator :: right.operators)
  | .var _ _ => True
  | .field receiver _ _ => receiver.Legible rule ∧ receiver.operators = []
  | .call _ arguments _ => ExprsLegible rule arguments
  | .method receiver _ arguments _ =>
    receiver.Legible rule ∧ receiver.operators = [] ∧ ExprsLegible rule arguments

def ExprsLegible (rule : List Operator → Nat) : List Expr → Prop
  | [] => True
  | e :: es => e.Legible rule ∧ ExprsLegible rule es

end

end Typed

namespace Render

/-- The names that a check knows at a place are spelled so that they can be told apart: variables,
methods and the parts of functions as words, fields as words or as calls without arguments. -/
structure SpelledApart (r : Registry) (c : Checker) : Prop where
  variable_word {name : String} {v : Variable} (h : c.lookupVariable name = .ok v) :
    isWord v.target = true
  variable_inj {name name' : String} {v v' : Variable} (h : c.lookupVariable name = .ok v)
    (h' : c.lookupVariable name' = .ok v') (heq : v.target = v'.target) : v = v'
  function_words {name : String} {arity : Nat} {f : Function}
    (h : c.lookupFunction name arity = .ok f) :
    ∃ w ws, (∀ word ∈ w :: ws, isWord word = true) ∧ f.target = ".".intercalate (w :: ws)
  function_inj {name name' : String} {arity : Nat} {f f' : Function}
    (h : c.lookupFunction name arity = .ok f) (h' : c.lookupFunction name' arity = .ok f')
    (heq : f.target = f'.target) : f = f'
  function_not_member {name name' rest : String} {arity : Nat} {f : Function} {v : Variable}
    (h : c.lookupFunction name arity = .ok f) (h' : c.lookupVariable name' = .ok v) :
    f.target ≠ v.target ++ "." ++ rest
  field_word {type : TypeId} {name : String} {f : FieldMember} (h : r.field type name = .ok f) :
    isWord f.target = true ∨ ∃ w, isWord w = true ∧ f.target = w ++ "()"
  field_inj {type : TypeId} {name name' : String} {f f' : FieldMember}
    (h : r.field type name = .ok f) (h' : r.field type name' = .ok f')
    (heq : f.target = f'.target) : f.toVariable = f'.toVariable
  method_word {type : TypeId} {name : String} {arity : Nat} {m : MethodMember}
    (h : r.method type name arity = .ok m) : isWord m.target = true
  method_inj {type : TypeId} {name name' : String} {arity : Nat} {m m' : MethodMember}
    (h : r.method type name arity = .ok m) (h' : r.method type name' arity = .ok m')
    (heq : m.target = m'.target) : m.toFunction = m'.toFunction
  field_not_method {type : TypeId} {name name' : String} {f : FieldMember} {m : MethodMember}
    (h : r.field type name = .ok f) (h' : r.method type name' 0 = .ok m) :
    f.target ≠ m.target ++ "()"

def path (w : String) (ws : List String) : List Token :=
  .word w :: ws.flatMap fun w => [.dot, .word w]

/-- The word of a field's spelling and the tokens behind it. -/
inductive FieldSpelled : String → String → List Token → Prop
  | word {w : String} (hw : isWord w = true) : FieldSpelled w w []
  | called {w : String} (hw : isWord w = true) :
      FieldSpelled (w ++ "()") w [.opening, .closing]

mutual

/-- A legible and well typed expression is written with these tokens. -/
inductive Spells (r : Registry) (c : Checker) (rule : List Operator → Nat) :
    Typed.Expr → List Token → Prop
  | literal {value : Literal} {type : TypeId} (h : value.check = .ok type) (ha : value.Apart) :
      Spells r c rule (.literal value type) [.literal value]
  | group {inner : Typed.Expr} {ts : List Token} (h : Spells r c rule inner ts) :
      Spells r c rule (.group inner inner.type) (.opening :: ts ++ [.closing])
  | binary {operator : Operator} {left right : Typed.Expr} {type : TypeId} {ts ts' : List Token}
      (hl : Spells r c rule left ts) (hr : Spells r c rule right ts')
      (h : Typing.checkOperator r left.type right.type operator = .ok type)
      (hrule : left.operators.length = rule (left.operators ++ operator :: right.operators)) :
      Spells r c rule (.binary operator left right type) (ts ++ .operator operator :: ts')
  | var {name : String} {v : Variable} (h : c.lookupVariable name = .ok v) :
      Spells r c rule (.var v v.type) [.word v.target]
  | field {receiver : Typed.Expr} {ts : List Token} {name w : String} {f : FieldMember}
      {suffix : List Token} (hr : Spells r c rule receiver ts) (ho : receiver.operators = [])
      (h : r.field receiver.type name = .ok f) (hw : FieldSpelled f.target w suffix) :
      Spells r c rule (.field receiver f.toVariable f.type) (ts ++ .dot :: .word w :: suffix)
  | call {arguments : List Typed.Expr} {ts : List Token} {name w : String} {ws : List String}
      {f : Function} (hs : SpellsAll r c rule arguments ts)
      (h : c.lookupFunction name arguments.length = .ok f)
      (hw : ∀ word ∈ w :: ws, isWord word = true) (ht : f.target = ".".intercalate (w :: ws)) :
      Spells r c rule (.call f arguments f.result) (path w ws ++ (.opening :: ts ++ [.closing]))
  | method {receiver : Typed.Expr} {arguments : List Typed.Expr} {ts ts' : List Token}
      {name : String} {m : MethodMember} (hr : Spells r c rule receiver ts)
      (ho : receiver.operators = []) (hs : SpellsAll r c rule arguments ts')
      (h : r.method receiver.type name arguments.length = .ok m) :
      Spells r c rule (.method receiver m.toFunction arguments m.result)
        (ts ++ .dot :: .word m.target :: (.opening :: ts' ++ [.closing]))

inductive SpellsAll (r : Registry) (c : Checker) (rule : List Operator → Nat) :
    List Typed.Expr → List Token → Prop
  | nil : SpellsAll r c rule [] []
  | one {e : Typed.Expr} {ts : List Token} (h : Spells r c rule e ts) : SpellsAll r c rule [e] ts
  | cons {e e' : Typed.Expr} {es : List Typed.Expr} {ts ts' : List Token}
      (h : Spells r c rule e ts) (hs : SpellsAll r c rule (e' :: es) ts') :
      SpellsAll r c rule (e :: e' :: es) (ts ++ .comma :: ts')

end

variable {r : Registry} {c : Checker} {rule : List Operator → Nat}

theorem exists_fieldSpelled {target : String}
    (h : isWord target = true ∨ ∃ w, isWord w = true ∧ target = w ++ "()") :
    ∃ w suffix, FieldSpelled target w suffix := by
  rcases h with h | ⟨w, hw, rfl⟩
  · exact ⟨target, [], .word h⟩
  · exact ⟨w, _, .called hw⟩

mutual

/-- An expression that was checked is written with tokens, if it is legible. -/
theorem spells_of_check (hs : SpelledApart r c) : ∀ (e : Source.Expr) {t : Typed.Expr},
    Typing.checkExpr r c e = .ok t → t.Legible rule → ∃ ts, Spells r c rule t ts
  | .literal value, t, h, hl => by
    simp only [Typing.checkExpr, bind_eq_ok, pure_eq_ok] at h
    obtain ⟨type, htype, rfl⟩ := h
    exact ⟨_, .literal htype hl⟩
  | .group inner, t, h, hl => by
    cases hb : inner.isBinary with
    | false =>
      simp only [Typing.checkExpr, hb] at h
      cases h
    | true =>
      simp only [Typing.checkExpr, hb, Bool.not_true, Bool.false_eq_true, if_false, bind_eq_ok,
        pure_eq_ok] at h
      obtain ⟨inner', hinner, rfl⟩ := h
      unfold Typed.Expr.Legible at hl
      obtain ⟨ts, hts⟩ := spells_of_check hs inner hinner hl
      exact ⟨_, .group hts⟩
  | .binary operator left right, t, h, hl => by
    simp only [Typing.checkExpr, bind_eq_ok, pure_eq_ok] at h
    obtain ⟨left', hleft, right', hright, type, htype, rfl⟩ := h
    unfold Typed.Expr.Legible at hl
    obtain ⟨ts, hts⟩ := spells_of_check hs left hleft hl.1
    obtain ⟨ts', hts'⟩ := spells_of_check hs right hright hl.2.1
    exact ⟨_, .binary hts hts' htype hl.2.2⟩
  | .var name, t, h, hl => by
    simp only [Typing.checkExpr, bind_eq_ok, pure_eq_ok] at h
    obtain ⟨v, hv, rfl⟩ := h
    exact ⟨_, .var hv⟩
  | .field receiver name, t, h, hl => by
    simp only [Typing.checkExpr, bind_eq_ok, pure_eq_ok] at h
    obtain ⟨receiver', hreceiver, f, hf, rfl⟩ := h
    unfold Typed.Expr.Legible at hl
    obtain ⟨ts, hts⟩ := spells_of_check hs receiver hreceiver hl.1
    obtain ⟨w, suffix, hw⟩ := exists_fieldSpelled (hs.field_word hf)
    exact ⟨_, .field hts hl.2 hf hw⟩
  | .call name arguments, t, h, hl => by
    simp only [Typing.checkExpr, bind_eq_ok, pure_eq_ok] at h
    obtain ⟨arguments', harguments, f, hf, -, -, rfl⟩ := h
    unfold Typed.Expr.Legible at hl
    obtain ⟨ts, hts⟩ := spellsAll_of_check hs arguments harguments hl
    obtain ⟨w, ws, hw, ht⟩ := hs.function_words hf
    exact ⟨_, .call hts hf hw ht⟩
  | .method receiver name arguments, t, h, hl => by
    simp only [Typing.checkExpr, bind_eq_ok, pure_eq_ok] at h
    obtain ⟨receiver', hreceiver, arguments', harguments, m, hm, -, -, rfl⟩ := h
    unfold Typed.Expr.Legible at hl
    obtain ⟨ts, hts⟩ := spells_of_check hs receiver hreceiver hl.1
    obtain ⟨ts', hts'⟩ := spellsAll_of_check hs arguments harguments hl.2.2
    exact ⟨_, .method hts hl.2.1 hts' hm⟩

theorem spellsAll_of_check (hs : SpelledApart r c) : ∀ (es : List Source.Expr)
    {es' : List Typed.Expr}, Typing.checkExprs r c es = .ok es' → Typed.ExprsLegible rule es' →
      ∃ ts, SpellsAll r c rule es' ts
  | [], es', h, hl => by
    unfold Typing.checkExprs at h
    cases h
    exact ⟨_, .nil⟩
  | e :: es, es', h, hl => by
    simp only [Typing.checkExprs, bind_eq_ok, pure_eq_ok] at h
    obtain ⟨t, ht, ts, hts, rfl⟩ := h
    unfold Typed.ExprsLegible at hl
    obtain ⟨tokens, htokens⟩ := spells_of_check hs e ht hl.1
    obtain ⟨rest, hrest⟩ := spellsAll_of_check hs es hts hl.2
    cases ts with
    | nil => exact ⟨_, .one htokens⟩
    | cons t' ts => exact ⟨_, .cons htokens hrest⟩

end

/-! ## The text of tokens -/

theorem text_append (ts ts' : List Token) : text (ts ++ ts') = text ts ++ text ts' :=
  List.flatMap_append

theorem text_path : ∀ (w : String) (ws : List String),
    text (path w ws) = (".".intercalate (w :: ws)).toList
  | w, [] => by simp [path, text, Token.chars]
  | w, w' :: ws => by
    have ih := text_path w' ws
    simp only [path, text, List.flatMap_cons, Token.chars] at ih ⊢
    rw [String.intercalate_cons_cons, String.toList_append, String.toList_append, ← ih]
    simp [Token.chars]

theorem FieldSpelled.text_eq {target w : String} {suffix : List Token}
    (h : FieldSpelled target w suffix) : text (.word w :: suffix) = target.toList := by
  cases h <;> simp [text, Token.chars]

mutual

theorem Spells.text_eq : ∀ {t : Typed.Expr} {ts : List Token}, Spells r c rule t ts →
    text ts = (expr t).toList
  | _, _, .literal _ _ => by simp [text, Token.chars, expr]
  | _, _, .group h => by
    rw [text_append, text_cons, h.text_eq, expr]
    simp [text, Token.chars]
  | _, _, .binary hl hr _ _ => by
    rw [text_append, text_cons, hl.text_eq, hr.text_eq, expr]
    simp [Token.chars]
  | _, _, .var _ => by simp [text, Token.chars, expr]
  | _, _, .field hr _ _ hw => by
    rw [text_append, text_cons, hw.text_eq, hr.text_eq, expr]
    simp [Token.chars]
  | _, _, .call hs _ _ ht => by
    rw [text_append, text_path, ← ht, text_append, text_cons, hs.text_eq, expr]
    simp [text, Token.chars]
  | _, _, .method hr _ hs _ => by
    rw [text_append, text_cons, text_cons, text_append, text_cons, hr.text_eq, hs.text_eq, expr]
    simp [text, Token.chars]

theorem SpellsAll.text_eq : ∀ {es : List Typed.Expr} {ts : List Token}, SpellsAll r c rule es ts →
    text ts = (", ".intercalate (exprs es)).toList
  | _, _, .nil => by simp [text, exprs]
  | _, _, .one h => by
    rw [h.text_eq]
    simp [exprs]
  | _, _, .cons h hs => by
    have ih := hs.text_eq
    rw [text_append, text_cons, h.text_eq, ih]
    simp [exprs, Token.chars]

end

/-! ## Rows of tokens -/

structure Phrase (ts : List Token) : Prop extends Row ts where
  last : ∀ t ∈ ts.getLast?, t ≠ .dot

namespace Phrase

variable {t : Token} {ts ts' : List Token}

theorem nil : Phrase [] :=
  ⟨⟨nofun, .nil⟩, nofun⟩

theorem cons (h : Phrase ts) (ht : t.Valid) (hd : t ≠ .dot)
    (hatom : t.kind.isAtom = true → ∀ next ∈ ts.head?, next.kind.isAtom = false) :
    Phrase (t :: ts) where
  valid := by
    simp only [List.mem_cons, forall_eq_or_imp]
    exact ⟨ht, h.valid⟩
  apart := List.isChain_cons.2
    ⟨fun next hnext => ⟨fun hk => hatom hk next hnext, fun heq => (hd heq).elim⟩, h.apart⟩
  last := by
    cases ts with
    | nil => simpa using hd
    | cons t' ts => simpa using h.last

theorem single (ht : t.Valid) (hd : t ≠ .dot) : Phrase [t] :=
  nil.cons ht hd fun _ => nofun

theorem dot {w : String} (h : Phrase (.word w :: ts)) : Phrase (.dot :: .word w :: ts) where
  valid := by
    simp only [List.mem_cons, forall_eq_or_imp]
    exact ⟨trivial, h.valid _ (.head _), fun t ht => h.valid t (.tail _ ht)⟩
  apart := .cons_cons ⟨nofun, fun _ => ⟨w, rfl⟩⟩ h.apart
  last := by simpa using h.last

theorem append_cons (h : Phrase ts) (h' : Phrase (t :: ts')) (ht : t.kind.isAtom = false) :
    Phrase (ts ++ t :: ts') where
  valid u hu := (List.mem_append.1 hu).elim (h.valid u) (h'.valid u)
  apart := by
    refine h.apart.append h'.apart ?_
    rintro x hx _ ⟨⟩
    exact ⟨fun _ => ht, fun heq => (h.last x hx heq).elim⟩
  last := by simpa using h'.last

theorem parentheses (h : Phrase ts) : Phrase (.opening :: ts ++ [.closing]) :=
  (h.append_cons (single (t := .closing) trivial nofun) rfl).cons trivial nofun nofun

end Phrase

theorem phrase_path : ∀ {w : String} {ws : List String}, (∀ word ∈ w :: ws, isWord word = true) →
    Phrase (path w ws)
  | w, [], h => .single (h w (.head _)) nofun
  | w, w' :: ws, h => by
    have ih : Phrase (path w' ws) := phrase_path fun word hw => h word (.tail _ hw)
    refine Phrase.cons (.dot ih) (h w (.head _)) nofun fun _ => ?_
    rintro _ ⟨⟩
    rfl

theorem FieldSpelled.phrase {target w : String} {suffix : List Token}
    (h : FieldSpelled target w suffix) : Phrase (.dot :: .word w :: suffix) := by
  cases h with
  | word hw => exact .dot (.single hw nofun)
  | called hw =>
    refine .dot (Phrase.nil.parentheses.cons hw nofun fun _ => ?_)
    rintro _ ⟨⟩
    rfl

mutual

theorem Spells.phrase (ha : SpelledApart r c) : ∀ {t : Typed.Expr} {ts : List Token},
    Spells r c rule t ts → Phrase ts
  | _, _, .literal _ hv => .single hv nofun
  | _, _, .group h => (h.phrase ha).parentheses
  | _, _, .binary hl hr _ _ =>
    (hl.phrase ha).append_cons ((hr.phrase ha).cons trivial nofun nofun) rfl
  | _, _, .var h => .single (ha.variable_word h) nofun
  | _, _, .field hr _ _ hw => (hr.phrase ha).append_cons hw.phrase rfl
  | _, _, .call hs _ hw _ => (phrase_path hw).append_cons (hs.phrase ha).parentheses rfl
  | _, _, .method hr _ hs h => by
    refine (hr.phrase ha).append_cons (.dot ((hs.phrase ha).parentheses.cons ?_ nofun fun _ => ?_))
      rfl
    · exact ha.method_word h
    · rintro _ ⟨⟩
      rfl

theorem SpellsAll.phrase (ha : SpelledApart r c) : ∀ {es : List Typed.Expr} {ts : List Token},
    SpellsAll r c rule es ts → Phrase ts
  | _, _, .nil => .nil
  | _, _, .one h => h.phrase ha
  | _, _, .cons h hs => (h.phrase ha).append_cons ((hs.phrase ha).cons trivial nofun nofun) rfl

end

end Render

end TypedImp
