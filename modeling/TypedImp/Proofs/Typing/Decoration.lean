import TypedImp.Proofs.Typing.Proper

/-!
# Decoration

Checking adds types, variables and functions to a program and changes nothing else. A decorated
program that is stripped of them again is the written program without the names of types, and these
names could be written in wherever they were left out (`check_decorates`): an inferred type is one
that may be declared.
-/

namespace TypedImp

/-! ## Without types -/

namespace Source

mutual

/-- The statement without the names of types that are written in it. -/
def Stmt.untyped : Stmt → Stmt
  | .expression e => .expression e
  | .declaration name _ value => .declaration name none value
  | .assignment target value => .assignment target value
  | .conditional condition thenBody elseBody =>
    .conditional condition (blockUntyped thenBody) (blockUntyped elseBody)
  | .each name items body => .each name items (blockUntyped body)
  | .loop condition body => .loop condition (blockUntyped body)
  | .ret value => .ret value

def blockUntyped : List Stmt → List Stmt
  | [] => []
  | s :: ss => s.untyped :: blockUntyped ss

end

def Field.untyped (f : Field) : Field :=
  { f with type := none }

def Method.untyped (m : Method) : Method :=
  { m with types := [], result := none, body := blockUntyped m.body }

def Program.untyped (p : Program) : Program :=
  ⟨p.fields.map Field.untyped, p.methods.map Method.untyped⟩

end Source

namespace Typed

mutual

/-- The expression as it was written, with the names that its variables and functions go by. -/
def Expr.erase : Expr → Source.Expr
  | .literal value _ => .literal value
  | .group inner _ => .group inner.erase
  | .binary operator left right _ => .binary operator left.erase right.erase
  | .var target _ => .var target.name
  | .field receiver target _ => .field receiver.erase target.name
  | .call function arguments _ => .call function.name (exprsErase arguments)
  | .method receiver function arguments _ =>
    .method receiver.erase function.name (exprsErase arguments)

def exprsErase : List Expr → List Source.Expr
  | [] => []
  | e :: es => e.erase :: exprsErase es

end

mutual

def Stmt.erase : Stmt → Source.Stmt
  | .expression e => .expression e.erase
  | .declaration target value => .declaration target.name none (value.map Expr.erase)
  | .assignment target value => .assignment target.erase value.erase
  | .conditional condition thenBody elseBody =>
    .conditional condition.erase (blockErase thenBody) (blockErase elseBody)
  | .each target items body => .each target.name items.erase (blockErase body)
  | .loop condition body => .loop condition.erase (blockErase body)
  | .ret value => .ret value.erase

def blockErase : List Stmt → List Source.Stmt
  | [] => []
  | s :: ss => s.erase :: blockErase ss

end

def Field.erase (f : Field) : Source.Field :=
  ⟨f.target.name, none, f.value.map Expr.erase⟩

def Method.erase (m : Method) : Source.Method :=
  ⟨m.function.name, m.parameters, [], none, blockErase m.body⟩

def Program.erase (t : Program) : Source.Program :=
  ⟨t.fields.map Field.erase, t.methods.map Method.erase⟩

end Typed

/-! ## With all types -/

namespace Source

mutual

/-- The statement with the types that its decorated form tells, where no name of a type is
written. -/
def Stmt.filled (r : Registry) : Stmt → Typed.Stmt → Stmt
  | .declaration name type value, .declaration target _ =>
    .declaration name (some (type.getD (r.nameOf target.type))) value
  | .conditional condition thenBody elseBody, .conditional _ thenBody' elseBody' =>
    .conditional condition (blockFilled r thenBody thenBody') (blockFilled r elseBody elseBody')
  | .each name items body, .each _ _ body' => .each name items (blockFilled r body body')
  | .loop condition body, .loop _ body' => .loop condition (blockFilled r body body')
  | s, _ => s

def blockFilled (r : Registry) : List Stmt → List Typed.Stmt → List Stmt
  | s :: ss, t :: ts => s.filled r t :: blockFilled r ss ts
  | ss, _ => ss

end

def Field.filled (r : Registry) (f : Field) (f' : Typed.Field) : Field :=
  { f with type := some (f.type.getD (r.nameOf f'.target.type)) }

/-- A method that names no result type gives nil. -/
def Method.filled (r : Registry) (m : Method) (m' : Typed.Method) : Method :=
  { m with result := some (m.result.getD "Nil"), body := blockFilled r m.body m'.body }

def Program.filled (r : Registry) (p : Program) (t : Typed.Program) : Program :=
  ⟨List.zipWith (Field.filled r) p.fields t.fields,
    List.zipWith (Method.filled r) p.methods t.methods⟩

end Source

variable {r : Registry} {env : Environment}

/-! ## Decorated programs without their decoration -/

mutual

theorem erase_of_exprTyped (hr : r.Reachable) (h : env.Proper r) : ∀ (e : Source.Expr)
    {t : Typed.Expr}, ExprTyped r env e t → t.erase = e
  | .literal _, _, .literal _ => by
    unfold Typed.Expr.erase
    rfl
  | .group inner, _, ht => by
    cases ht with
    | group hi =>
      unfold Typed.Expr.erase
      rw [erase_of_exprTyped hr h _ hi]
  | .binary _ left right, _, .binary hl hrt _ => by
    unfold Typed.Expr.erase
    rw [erase_of_exprTyped hr h left hl, erase_of_exprTyped hr h right hrt]
  | .var _, _, .var hv => by
    unfold Typed.Expr.erase
    rw [(h.findVariable? hv).1]
  | .field receiver _, _, .field he hf => by
    unfold Typed.Expr.erase
    rw [erase_of_exprTyped hr h receiver he, hr.name_of_field hf]
  | .call _ arguments, _, .call hs hf _ _ => by
    obtain ⟨hname, -⟩ := Prod.mk.inj (h.keyed _ _ hf)
    unfold Typed.Expr.erase
    rw [erase_of_exprsTyped hr h arguments hs, hname]
  | .method receiver _ arguments, _, .method he hs hm _ _ => by
    obtain ⟨hname, -⟩ := Prod.mk.inj (hr.key_of_method hm)
    unfold Typed.Expr.erase
    rw [erase_of_exprTyped hr h receiver he, erase_of_exprsTyped hr h arguments hs, hname]

theorem erase_of_exprsTyped (hr : r.Reachable) (h : env.Proper r) : ∀ (es : List Source.Expr)
    {ts : List Typed.Expr}, ExprsTyped r env es ts → Typed.exprsErase ts = es
  | [], _, .nil => by
    unfold Typed.exprsErase
    rfl
  | e :: es, _, .cons he hes => by
    unfold Typed.exprsErase
    rw [erase_of_exprTyped hr h e he, erase_of_exprsTyped hr h es hes]

end

theorem erase_of_declarationTyped (hr : r.Reachable) (h : env.Proper r) {name : String}
    {type : Option String} {value : Option Source.Expr} {target : Variable}
    {value' : Option Typed.Expr}
    (ht : DeclarationTyped r env name type value target value') :
    target.name = name ∧ value'.map Typed.Expr.erase = value := by
  cases ht with
  | typed _ _ => exact ⟨rfl, rfl⟩
  | valued hv _ | both _ hv _ _ =>
    exact ⟨rfl, congrArg some (erase_of_exprTyped hr h _ hv)⟩

mutual

theorem erase_of_stmtTyped (hr : r.Reachable) (hc : r.Closed) : ∀ (s : Source.Stmt)
    {env : Environment} {t : Typed.Stmt}, StmtTyped r env s t → env.Proper r → t.erase = s.untyped
  | .expression e, _, _, .expression _ he, h => by
    unfold Typed.Stmt.erase Source.Stmt.untyped
    rw [erase_of_exprTyped hr h e he]
  | .declaration _ _ _, _, _, .declaration hd, h => by
    obtain ⟨hname, hvalue⟩ := erase_of_declarationTyped hr h hd
    unfold Typed.Stmt.erase Source.Stmt.untyped
    rw [hname, hvalue]
  | .assignment target value, _, _, .assignment _ ht hv _, h => by
    unfold Typed.Stmt.erase Source.Stmt.untyped
    rw [erase_of_exprTyped hr h target ht, erase_of_exprTyped hr h value hv]
  | .conditional condition thenBody elseBody, _, _, .conditional hcond _ _ ht he, h => by
    unfold Typed.Stmt.erase Source.Stmt.untyped
    rw [erase_of_exprTyped hr h condition hcond, erase_of_blockTyped hr hc thenBody ht h.nest,
      erase_of_blockTyped hr hc elseBody he h.nest]
  | .each name items body, _, _, .each hi _ _ hb, h => by
    unfold Typed.Stmt.erase Source.Stmt.untyped
    rw [erase_of_exprTyped hr h items hi, erase_of_blockTyped hr hc body hb (h.round hr name)]
    rfl
  | .loop condition body, _, _, .loop hcond _ hb, h => by
    unfold Typed.Stmt.erase Source.Stmt.untyped
    rw [erase_of_exprTyped hr h condition hcond, erase_of_blockTyped hr hc body hb h.nest]
  | .ret value, _, _, .ret hv _, h => by
    unfold Typed.Stmt.erase Source.Stmt.untyped
    rw [erase_of_exprTyped hr h value hv]

theorem erase_of_blockTyped (hr : r.Reachable) (hc : r.Closed) : ∀ (ss : List Source.Stmt)
    {env : Environment} {ts : List Typed.Stmt}, BlockTyped r env ss ts → env.Proper r →
    Typed.blockErase ts = Source.blockUntyped ss
  | [], _, _, .nil, _ => by
    unfold Typed.blockErase Source.blockUntyped
    rfl
  | s :: ss, _, _, .cons hs hss, h => by
    unfold Typed.blockErase Source.blockUntyped
    rw [erase_of_stmtTyped hr hc s hs h, erase_of_blockTyped hr hc ss hss (h.after hr hc hs)]

end

theorem erase_of_methodTyped (hr : r.Reachable) (hc : r.Closed) {m : Source.Method}
    {m' : Typed.Method} (ht : MethodTyped r env m m') (h : env.Proper r) :
    m'.erase = m.untyped := by
  have hbody := (h.body hr ht).1
  cases ht with
  | mk _ _ _ _ _ hb =>
    unfold Typed.Method.erase Source.Method.untyped
    rw [erase_of_blockTyped hr hc _ hb hbody]
    rfl

theorem erase_of_fieldsTyped (hr : r.Reachable) (hc : r.Closed) : ∀ {fs : List Source.Field}
    {fs' : List Typed.Field} {env : Environment}, FieldsTyped r env fs fs' → env.Proper r →
    fs'.map Typed.Field.erase = fs.map Source.Field.untyped
  | _, _, _, .nil, _ => rfl
  | _, _, _, .cons hd hs, h => by
    obtain ⟨hname, hvalue⟩ := erase_of_declarationTyped hr h hd
    have hrest := erase_of_fieldsTyped hr hc hs (h.declare (h.issued_of_declarationTyped hr hc hd))
    rw [List.map_cons, List.map_cons, hrest, Typed.Field.erase, Source.Field.untyped, hname, hvalue]

theorem erase_of_methodsTyped (hr : r.Reachable) (hc : r.Closed) : ∀ {ms : List Source.Method}
    {ms' : List Typed.Method} {env : Environment}, MethodsTyped r env ms ms' → env.Proper r →
    ms'.map Typed.Method.erase = ms.map Source.Method.untyped
  | _, _, _, .nil, _ => rfl
  | _, _, _, .cons hm hms, h => by
    rw [List.map_cons, List.map_cons, erase_of_methodTyped hr hc hm h,
      erase_of_methodsTyped hr hc hms (h.body hr hm).2]

/-! ## Types that are written in -/

theorem filled_ne_nil : ∀ {ss : List Source.Stmt} {ts : List Typed.Stmt}, ss ≠ [] →
    Source.blockFilled r ss ts ≠ []
  | [], _, h => absurd rfl h
  | s :: ss, [], h => by
    unfold Source.blockFilled
    exact h
  | s :: ss, t :: ts, _ => by
    unfold Source.blockFilled
    exact List.cons_ne_nil _ _

theorem declarationTyped_filled (hr : r.Reachable) (hc : r.Closed) (h : env.Proper r)
    {name : String} {type : Option String} {value : Option Source.Expr} {target : Variable}
    {value' : Option Typed.Expr}
    (ht : DeclarationTyped r env name type value target value') :
    DeclarationTyped r env name (some (type.getD (r.nameOf target.type))) value target value' := by
  cases ht with
  | typed hn fresh => exact .typed hn fresh
  | valued hv fresh =>
    exact .both (hr.typeNamed?_nameOf (h.issued_of_exprTyped hr hc hv)) hv (.same _) fresh
  | both hn hv ha fresh => exact .both hn hv ha fresh

mutual

theorem stmtTyped_filled (hr : r.Reachable) (hc : r.Closed) : ∀ (s : Source.Stmt)
    {env : Environment} {t : Typed.Stmt}, StmtTyped r env s t → env.Proper r →
    StmtTyped r env (s.filled r t) t
  | .expression _, _, _, .expression call he, _ => by
    unfold Source.Stmt.filled
    exact .expression call he
  | .declaration _ _ _, _, _, .declaration hd, h => by
    unfold Source.Stmt.filled
    exact .declaration (declarationTyped_filled hr hc h hd)
  | .assignment _ _, _, _, .assignment access ht hv ha, _ => by
    unfold Source.Stmt.filled
    exact .assignment access ht hv ha
  | .conditional _ thenBody elseBody, _, _, .conditional hcond ha nonempty ht he, h => by
    unfold Source.Stmt.filled
    exact .conditional hcond ha (filled_ne_nil nonempty)
      (blockTyped_filled hr hc thenBody ht h.nest) (blockTyped_filled hr hc elseBody he h.nest)
  | .each name _ body, _, _, .each hi ha nonempty hb, h => by
    unfold Source.Stmt.filled
    exact .each hi ha (filled_ne_nil nonempty) (blockTyped_filled hr hc body hb (h.round hr name))
  | .loop _ body, _, _, .loop hcond ha hb, h => by
    unfold Source.Stmt.filled
    exact .loop hcond ha (blockTyped_filled hr hc body hb h.nest)
  | .ret _, _, _, .ret hv hres, _ => by
    unfold Source.Stmt.filled
    exact .ret hv hres

theorem blockTyped_filled (hr : r.Reachable) (hc : r.Closed) : ∀ (ss : List Source.Stmt)
    {env : Environment} {ts : List Typed.Stmt}, BlockTyped r env ss ts → env.Proper r →
    BlockTyped r env (Source.blockFilled r ss ts) ts
  | [], _, _, .nil, _ => by
    unfold Source.blockFilled
    exact .nil
  | s :: ss, _, _, .cons hs hss, h => by
    unfold Source.blockFilled
    exact .cons (stmtTyped_filled hr hc s hs h) (blockTyped_filled hr hc ss hss (h.after hr hc hs))

end

/-- A method that names no result type is derived as one that names nil. -/
theorem resultNamed_filled (hr : r.Reachable) {name : Option String} {type : TypeId}
    (h : ResultNamed r name type) : ResultNamed r (some (name.getD "Nil")) type := by
  cases h with
  | none => exact .some hr.typeNamed?_nil
  | some hn => exact .some hn

theorem methodTyped_filled (hr : r.Reachable) (hc : r.Closed) {m : Source.Method}
    {m' : Typed.Method} (ht : MethodTyped r env m m') (h : env.Proper r) :
    MethodTyped r env (m.filled r m') m' := by
  have hbody := (h.body hr ht).1
  cases ht with
  | mk counts named hres fresh distinct hb =>
    unfold Source.Method.filled
    exact .mk counts named (resultNamed_filled hr hres) fresh distinct
      (blockTyped_filled hr hc _ hb hbody)

theorem fieldsTyped_filled (hr : r.Reachable) (hc : r.Closed) : ∀ {fs : List Source.Field}
    {fs' : List Typed.Field} {env : Environment}, FieldsTyped r env fs fs' → env.Proper r →
    FieldsTyped r env (List.zipWith (Source.Field.filled r) fs fs') fs'
  | _, _, _, .nil, _ => .nil
  | _, _, _, .cons hd hs, h =>
    .cons (declarationTyped_filled hr hc h hd)
      (fieldsTyped_filled hr hc hs (h.declare (h.issued_of_declarationTyped hr hc hd)))

theorem methodsTyped_filled (hr : r.Reachable) (hc : r.Closed) : ∀ {ms : List Source.Method}
    {ms' : List Typed.Method} {env : Environment}, MethodsTyped r env ms ms' → env.Proper r →
    MethodsTyped r env (List.zipWith (Source.Method.filled r) ms ms') ms'
  | _, _, _, .nil, _ => .nil
  | _, _, _, .cons hm hms, h =>
    .cons (methodTyped_filled hr hc hm h) (methodsTyped_filled hr hc hms (h.body hr hm).2)

/-- The method that a program starts with names its result type, so nothing is filled in there. -/
theorem startable_filled {fs fs' : List Source.Field} {ms : List Source.Method}
    {ms' : List Typed.Method} (hl : ms'.length = ms.length) (h : Startable r ⟨fs, ms⟩) :
    Startable r ⟨fs', List.zipWith (Source.Method.filled r) ms ms'⟩ := by
  obtain ⟨m, hm, hname, hparameters, name, hresult, hn⟩ := h
  obtain ⟨i, hi, rfl⟩ := List.getElem_of_mem hm
  refine ⟨_, List.getElem_mem (l := List.zipWith (Source.Method.filled r) ms ms') (n := i)
    (by simp [hl, hi]), ?_⟩
  rw [List.getElem_zipWith]
  exact ⟨hname, hparameters, name, by rw [Source.Method.filled, hresult, Option.getD_some], hn⟩

/-- Checking decorates a program and changes nothing else about it. Where the program leaves a type
out, the one that was found may as well be written there. -/
theorem check_decorates (hr : r.Reachable) (hc : r.Closed) {p : Source.Program}
    {t : Typed.Program} (h : Typing.check r p = .ok t) :
    t.erase = p.untyped ∧ Typing.check r (p.filled r t) = .ok t := by
  rw [Typing.check_iff hr] at h ⊢
  cases h with
  | mk start hf hm =>
    have hproper := (Environment.Proper.fields hr hc hf (.initial hr)).2
    refine ⟨?_, .mk (startable_filled (length_of_methodsTyped hm) start) ?_ ?_⟩
    · rw [Typed.Program.erase, Source.Program.untyped, erase_of_fieldsTyped hr hc hf (.initial hr),
        erase_of_methodsTyped hr hc hm hproper]
    · exact fieldsTyped_filled hr hc hf (.initial hr)
    · exact methodsTyped_filled hr hc hm hproper

/-- A program that leaves types out of a field, of a block and of a method. -/
def Source.Program.count : Source.Program where
  fields := [⟨"n", none, some (.literal (.integer 2))⟩]
  methods :=
    [⟨"count", ["s", "r"], ["String", "IntegerIterable"], none,
      [.each "i" (.var "r")
        [.declaration "m" none (some (.binary (.arithmetic .add) (.var "s") (.var "i")))]]⟩,
     ⟨"main", [], [], some "Integer", [.ret (.var "n")]⟩]

theorem check_decorates_count : ∃ t, Typing.check .builtin .count = .ok t ∧
    t.erase = Source.Program.count.untyped ∧
    ∃ p, Typing.check .builtin p = .ok t ∧ p.fields.map (·.type) = [some "Integer"] ∧
      p.methods.map (·.result) = [some "Nil", some "Integer"] := by
  have hfilled : (Typing.check .builtin .count).toOption.map (fun t =>
      let p := Source.Program.count.filled .builtin t
      (p.fields.map (·.type), p.methods.map (·.result))) =
      some ([some "Integer"], [some "Nil", some "Integer"]) := by
    decide +kernel
  obtain ⟨t, ht, hfilled⟩ := exists_of_view hfilled
  obtain ⟨hfields, hresults⟩ := Prod.mk.inj hfilled
  obtain ⟨herase, hagain⟩ := check_decorates .builtin Registry.closed_builtin ht
  exact ⟨t, ht, herase, _, hagain, hfields, hresults⟩

end TypedImp
