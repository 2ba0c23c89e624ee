import TypedImp.Proofs.Types.Extension
import TypedImp.Proofs.Typing.Proper
import TypedImp.Proofs.Typing.Transfer

/-!
# Checking with more types

A program that is checked with a closed registry sees issued types only, so the registry may grow:
the program is accepted as before and decorated in the same way (`programTyped_extends`).
-/

namespace TypedImp

variable {r r' : Registry} {env : Environment}

/-- A registry that has grown answers as it did whatever is asked from a proper environment. -/
def Transfer.extends (hr : r.Reachable) (hc : r.Closed) (h : r.Extends r') : Transfer r r' where
  Rel env env' := env' = env ∧ env.Proper r
  named hn := Registry.typeNamed?_of_prefix h.types hn
  field := by
    rintro _ _ ⟨-, hp⟩ e t ht name target hf
    rwa [h.field_eq hr (hp.issued_of_exprTyped hr hc ht)]
  method := by
    rintro _ _ ⟨-, hp⟩ e t ht name n target hm
    rwa [h.method_eq hr (hp.issued_of_exprTyped hr hc ht)]
  findVariable? := by
    rintro _ _ ⟨rfl, -⟩ name v hv
    exact hv
  findFunction? := by
    rintro _ _ ⟨rfl, -⟩ name arity f hf
    exact hf
  fresh := by
    rintro _ _ ⟨rfl, -⟩ name hn
    exact hn
  result := by
    rintro _ _ ⟨rfl, -⟩
    rfl
  nest := by
    rintro _ _ ⟨rfl, hp⟩
    exact ⟨rfl, hp.nest⟩
  round := by
    rintro _ _ ⟨rfl, hp⟩ name
    exact ⟨rfl, hp.round hr name⟩
  after := by
    rintro _ _ ⟨rfl, hp⟩ s t ht
    exact ⟨rfl, hp.after hr hc ht⟩

section

variable (hr : r.Reachable) (hc : r.Closed) (h : r.Extends r')
include hr hc h

theorem methodTyped_extends (hp : env.Proper r) {m : Source.Method} {m' : Typed.Method}
    (ht : MethodTyped r env m m') : MethodTyped r' env m m' := by
  have hbody := (hp.body hr ht).1
  let T := Transfer.extends hr hc h
  cases ht with
  | mk counts named hres fresh distinct hb =>
    exact .mk counts (T.typesNamed named) (T.resultNamed hres) fresh distinct
      (T.blockTyped ⟨rfl, hbody⟩ hb)

theorem fieldsTyped_extends : ∀ {fs : List Source.Field} {fs' : List Typed.Field}
    {env : Environment}, env.Proper r → FieldsTyped r env fs fs' → FieldsTyped r' env fs fs'
  | _, _, _, _, .nil => .nil
  | _, _, _, hp, .cons hd hs =>
    .cons ((Transfer.extends hr hc h).declarationTyped ⟨rfl, hp⟩ hd)
      (fieldsTyped_extends (hp.declare (hp.issued_of_declarationTyped hr hc hd)) hs)

theorem methodsTyped_extends : ∀ {ms : List Source.Method} {ms' : List Typed.Method}
    {env : Environment}, env.Proper r → MethodsTyped r env ms ms' → MethodsTyped r' env ms ms'
  | _, _, _, _, .nil => .nil
  | _, _, _, hp, .cons hm hs =>
    .cons (methodTyped_extends hr hc h hp hm) (methodsTyped_extends (hp.body hr hm).2 hs)

theorem programTyped_extends (hp : env.Proper r) {p : Source.Program} {t : Typed.Program}
    (ht : ProgramTyped r env p t) : ProgramTyped r' env p t := by
  cases ht with
  | mk start hf hm =>
    exact .mk ((Transfer.extends hr hc h).startable start) (fieldsTyped_extends hr hc h hp hf)
      (methodsTyped_extends hr hc h (hp.fields hr hc hf).2 hm)

end

end TypedImp
