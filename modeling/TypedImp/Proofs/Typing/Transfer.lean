import TypedImp.Proofs.Typing.Judgement

/-!
# Derivations in other surroundings

What is derived in one environment, over one registry, is derived in another, over another one, if
all that a derivation asks of the first has the same answer there (`Transfer`). The decorated form
stays the same.
-/

namespace TypedImp

/-- The second of two related environments, over the second registry, answers as the first does
over the first registry. It may know more. -/
structure Transfer (r r' : Registry) where
  Rel : Environment → Environment → Prop
  named {name : String} {type : TypeId} (h : r.typeNamed? name = some type) :
    r'.typeNamed? name = some type
  field {env env' : Environment} (h : Rel env env') {e : Source.Expr} {t : Typed.Expr}
    (ht : ExprTyped r env e t) {name : String} {target : FieldMember}
    (hf : r.field t.type name = .ok target) : r'.field t.type name = .ok target
  method {env env' : Environment} (h : Rel env env') {e : Source.Expr} {t : Typed.Expr}
    (ht : ExprTyped r env e t) {name : String} {n : Nat} {target : MethodMember}
    (hm : r.method t.type name n = .ok target) : r'.method t.type name n = .ok target
  findVariable? {env env' : Environment} (h : Rel env env') {name : String} {v : Variable}
    (hv : env.findVariable? name = some v) : env'.findVariable? name = some v
  findFunction? {env env' : Environment} (h : Rel env env') {name : String} {arity : Nat}
    {f : Function} (hf : env.findFunction? name arity = some f) :
    env'.findFunction? name arity = some f
  fresh {env env' : Environment} (h : Rel env env') {name : String} (hn : env.Fresh name) :
    env'.Fresh name
  result {env env' : Environment} (h : Rel env env') : env'.result = env.result
  nest {env env' : Environment} (h : Rel env env') : Rel env.nest env'.nest
  round {env env' : Environment} (h : Rel env env') (name : String) :
    Rel (env.nest.declare (.plain name .integer)) (env'.nest.declare (.plain name .integer))
  after {env env' : Environment} (h : Rel env env') {s : Source.Stmt} {t : Typed.Stmt}
    (ht : StmtTyped r env s t) : Rel (env.after t) (env'.after t)

namespace Transfer

variable {r r' : Registry} (T : Transfer r r') {env env' : Environment}

mutual

theorem exprTyped (h : T.Rel env env') : ∀ {e : Source.Expr} {t : Typed.Expr},
    ExprTyped r env e t → ExprTyped r' env' e t
  | _, _, .literal hv => .literal hv
  | _, _, .group hi => .group (exprTyped h hi)
  | _, _, .binary hl hr ho => .binary (exprTyped h hl) (exprTyped h hr) ho
  | _, _, .var hv => .var (T.findVariable? h hv)
  | _, _, .field he hf => .field (exprTyped h he) (T.field h he hf)
  | _, _, .call hs hf harity hfit =>
    .call (exprsTyped h hs) (T.findFunction? h hf) harity hfit
  | _, _, .method he hs hm harity hfit =>
    .method (exprTyped h he) (exprsTyped h hs) (T.method h he hm) harity hfit

theorem exprsTyped (h : T.Rel env env') : ∀ {es : List Source.Expr} {ts : List Typed.Expr},
    ExprsTyped r env es ts → ExprsTyped r' env' es ts
  | _, _, .nil => .nil
  | _, _, .cons he hes => .cons (exprTyped h he) (exprsTyped h hes)

end

theorem declarationTyped (h : T.Rel env env') {name : String} {type : Option String}
    {value : Option Source.Expr} {target : Variable} {value' : Option Typed.Expr}
    (ht : DeclarationTyped r env name type value target value') :
    DeclarationTyped r' env' name type value target value' := by
  cases ht with
  | typed hn fresh => exact .typed (T.named hn) (T.fresh h fresh)
  | valued hv fresh => exact .valued (T.exprTyped h hv) (T.fresh h fresh)
  | both hn hv ha fresh => exact .both (T.named hn) (T.exprTyped h hv) ha (T.fresh h fresh)

mutual

theorem stmtTyped : ∀ {env env' : Environment} {s : Source.Stmt} {t : Typed.Stmt},
    T.Rel env env' → StmtTyped r env s t → StmtTyped r' env' s t
  | _, _, _, _, h, .expression call he => .expression call (T.exprTyped h he)
  | _, _, _, _, h, .declaration hd => .declaration (T.declarationTyped h hd)
  | _, _, _, _, h, .assignment access ht hv ha =>
    .assignment access (T.exprTyped h ht) (T.exprTyped h hv) ha
  | _, _, _, _, h, .conditional hc ha nonempty ht he =>
    .conditional (T.exprTyped h hc) ha nonempty (blockTyped (T.nest h) ht)
      (blockTyped (T.nest h) he)
  | _, _, _, _, h, .each hi ha nonempty hb =>
    .each (T.exprTyped h hi) ha nonempty (blockTyped (T.round h _) hb)
  | _, _, _, _, h, .loop hc ha hb =>
    .loop (T.exprTyped h hc) ha (blockTyped (T.nest h) hb)
  | _, _, _, _, h, .ret hv hresult => .ret (T.exprTyped h hv) ((T.result h).trans hresult)

theorem blockTyped : ∀ {env env' : Environment} {ss : List Source.Stmt} {ts : List Typed.Stmt},
    T.Rel env env' → BlockTyped r env ss ts → BlockTyped r' env' ss ts
  | _, _, _, _, _, .nil => .nil
  | _, _, _, _, h, .cons hs hss => .cons (stmtTyped h hs) (blockTyped (T.after h hs) hss)

end

include T

theorem resultNamed {name : Option String} {type : TypeId} (h : ResultNamed r name type) :
    ResultNamed r' name type := by
  cases h with
  | none => exact .none
  | some hn => exact .some (T.named hn)

theorem typesNamed {names : List String} {types : List TypeId}
    (h : List.Forall₂ (fun name type => r.typeNamed? name = some type) names types) :
    List.Forall₂ (fun name type => r'.typeNamed? name = some type) names types :=
  h.imp fun _ _ => T.named

theorem startable {p : Source.Program} (h : Startable r p) : Startable r' p := by
  obtain ⟨m, hm, hname, hparameters, name, hresult, hn⟩ := h
  exact ⟨m, hm, hname, hparameters, name, hresult, T.named hn⟩

end Transfer

end TypedImp
