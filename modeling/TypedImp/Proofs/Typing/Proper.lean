import TypedImp.Proofs.Types.Issued
import TypedImp.Proofs.Typing.Calls
import TypedImp.Proofs.Typing.Program

/-!
# Proper environments

In a proper environment variables and functions are known under their own names and have types that
were issued. With a closed registry, what is typed there has an issued type too
(`Proper.issued_of_exprTyped`), and what a statement or a method declares leaves the environment
proper (`Proper.after`, `Proper.ofMethod`).
-/

namespace TypedImp

variable {r : Registry} {env : Environment}

/-- Names lead to variables and functions of that name, and their types were issued. -/
structure Environment.Proper (r : Registry) (env : Environment) : Prop where
  vars : ∀ frame ∈ env.frames, ∀ name v, frame.get? name = some v →
    v.name = name ∧ r.Issued v.type
  keyed : Keyed env.functions
  results : ∀ key f, env.functions.get? key = some f → r.Issued f.result

namespace Environment.Proper

theorem initial (hr : r.Reachable) : Proper r .initial where
  vars frame hframe name v hv := by
    obtain rfl := List.mem_singleton.1 hframe
    cases hv
  keyed := Typing.sees_initial.keyed
  results key f hf := by
    rw [Environment.initial, Table.get?_cons] at hf
    split_ifs at hf
    · cases hf
      exact hr.issued_of_mem (by decide)
    · cases hf

theorem nest (h : env.Proper r) : env.nest.Proper r where
  vars := by
    refine List.forall_mem_cons.2 ⟨?_, h.vars⟩
    rintro name v ⟨⟩
  keyed := h.keyed
  results := h.results

theorem declare (h : env.Proper r) {v : Variable} (hv : r.Issued v.type) :
    (env.declare v).Proper r where
  vars := by
    obtain ⟨_ | ⟨top, rest⟩, functions, result⟩ := env
    · exact h.vars
    · obtain ⟨htop, hrest⟩ := List.forall_mem_cons.1 h.vars
      refine List.forall_mem_cons.2 ⟨fun name w hw => ?_, hrest⟩
      rw [Table.get?_insert] at hw
      split_ifs at hw with hn
      · cases hw
        exact ⟨hn.symm, hv⟩
      · exact htop name w hw
  keyed := h.keyed
  results := h.results

theorem declareAll : ∀ (vs : List Variable) {env : Environment}, env.Proper r →
    (∀ v ∈ vs, r.Issued v.type) → (env.declareAll vs).Proper r
  | [], _, h, _ => h
  | v :: vs, _, h, hvs => by
    rw [List.forall_mem_cons] at hvs
    exact declareAll vs (h.declare hvs.1) hvs.2

theorem declareFunction (h : env.Proper r) {f : Function} (hf : r.Issued f.result) :
    (env.declareFunction f).Proper r where
  vars := h.vars
  keyed := h.keyed.declareFunction f
  results key g hg := by
    rw [Environment.declareFunction, Table.get?_insert] at hg
    split_ifs at hg
    · cases hg
      exact hf
    · exact h.results key g hg

theorem ofMethod (h : env.Proper r) {f : Function} (hf : r.Issued f.result)
    (hs : ∀ type ∈ f.parameters, r.Issued type) (parameters : List String) :
    (env.ofMethod f parameters).Proper r := by
  have hvs : ∀ v ∈ List.zipWith Variable.plain parameters f.parameters, r.Issued v.type := by
    intro v hv
    rw [← List.map_uncurry_zip_eq_zipWith] at hv
    obtain ⟨⟨name, type⟩, hmem, rfl⟩ := List.mem_map.1 hv
    exact hs type (List.of_mem_zip hmem).2
  have hinner := declareAll _ (h.declareFunction hf).nest hvs
  exact ⟨hinner.vars, hinner.keyed, hinner.results⟩

theorem findVariable? (h : env.Proper r) {name : String} {v : Variable}
    (hv : env.findVariable? name = some v) : v.name = name ∧ r.Issued v.type := by
  obtain ⟨frame, hframe, hget⟩ := List.exists_of_findSome?_eq_some hv
  exact h.vars frame hframe name v hget

end Environment.Proper

open Environment

/-! ## Types of what is well typed -/

theorem issued_of_literalTyped (hr : r.Reachable) {value : Literal} {type : TypeId}
    (h : LiteralTyped value type) : r.Issued type := by
  cases h <;> exact hr.issued_of_mem (by decide)

theorem issued_of_operatorTyped (hr : r.Reachable) {operator : Operator}
    {left right type : TypeId} (h : OperatorTyped operator left right type) : r.Issued type := by
  cases h with
  | connective | relation | join => exact hr.issued_of_mem (by decide)
  | arithmetic _ h => rcases h with rfl | rfl <;> exact hr.issued_of_mem (by decide)

section

variable (hr : r.Reachable) (hc : r.Closed)
include hr hc

theorem Environment.Proper.issued_of_exprTyped (h : env.Proper r) : ∀ {e : Source.Expr}
    {t : Typed.Expr}, ExprTyped r env e t → r.Issued t.type
  | _, _, .literal hv => issued_of_literalTyped hr hv
  | _, _, .group (.binary _ _ ho) => issued_of_operatorTyped hr ho
  | _, _, .binary _ _ ho => issued_of_operatorTyped hr ho
  | _, _, .var hv => (h.findVariable? hv).2
  | _, _, .field _ hf => hc.field hf
  | _, _, .call _ hf _ _ => h.results _ _ hf
  | _, _, .method _ _ hm _ _ => hc.result hm

theorem Environment.Proper.issued_of_declarationTyped (h : env.Proper r) {name : String}
    {type : Option String} {value : Option Source.Expr} {target : Variable}
    {value' : Option Typed.Expr} (ht : DeclarationTyped r env name type value target value') :
    r.Issued target.type := by
  cases ht with
  | typed hn _ | both hn _ _ _ => exact Registry.issued_of_typeNamed? hn
  | valued hv _ => exact h.issued_of_exprTyped hr hc hv

theorem Environment.Proper.after (h : env.Proper r) {s : Source.Stmt} {t : Typed.Stmt}
    (ht : StmtTyped r env s t) : (env.after t).Proper r := by
  cases ht with
  | declaration hd => exact h.declare (h.issued_of_declarationTyped hr hc hd)
  | _ => exact h

end

theorem Environment.Proper.round (hr : r.Reachable) (h : env.Proper r) (name : String) :
    (env.nest.declare (.plain name .integer)).Proper r :=
  h.nest.declare (hr.issued_of_mem (by decide : .integer ∈ Builtin.allTypes))

theorem issued_of_resultNamed (hr : r.Reachable) {name : Option String} {type : TypeId}
    (h : ResultNamed r name type) : r.Issued type := by
  cases h with
  | none => exact hr.issued_of_mem (by decide)
  | some hn => exact Registry.issued_of_typeNamed? hn

theorem issued_of_typesNamed {names : List String} {types : List TypeId}
    (h : List.Forall₂ (fun name type => r.typeNamed? name = some type) names types) :
    ∀ type ∈ types, r.Issued type := by
  induction h with
  | nil => exact fun _ h => absurd h List.not_mem_nil
  | cons hn _ ih => exact List.forall_mem_cons.2 ⟨Registry.issued_of_typeNamed? hn, ih⟩

/-- The body of a well typed method stands in a proper environment. -/
theorem Environment.Proper.body (hr : r.Reachable) (h : env.Proper r) {source : Source.Method}
    {method : Typed.Method} (ht : MethodTyped r env source method) :
    (env.ofMethod method.function method.parameters).Proper r ∧
      (env.declareFunction method.function).Proper r := by
  cases ht with
  | mk _ named hres _ _ _ =>
    have hresult := issued_of_resultNamed hr hres
    exact ⟨h.ofMethod hresult (issued_of_typesNamed named) _, h.declareFunction hresult⟩

/-- Fields leave the environment proper. -/
theorem Environment.Proper.fields (hr : r.Reachable) (hc : r.Closed) :
    ∀ {sources : List Source.Field} {fields : List Typed.Field} {env : Environment},
      FieldsTyped r env sources fields → env.Proper r →
      (∀ field ∈ fields, r.Issued field.target.type) ∧
        (env.declareAll (fields.map (·.target))).Proper r
  | _, _, _, .nil, h => ⟨fun _ hmem => absurd hmem List.not_mem_nil, h⟩
  | _, _, _, .cons hd hs, h => by
    have hissued := h.issued_of_declarationTyped hr hc hd
    obtain ⟨hrest, hproper⟩ := Proper.fields hr hc hs (h.declare hissued)
    exact ⟨List.forall_mem_cons.2 ⟨hissued, hrest⟩, hproper⟩

end TypedImp
