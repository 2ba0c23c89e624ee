import Mathlib.Data.Option.Basic
import TypedImp.Proofs.Machine.Effect
import TypedImp.Proofs.Typing.Calls

/-!
# Runs side by side

If what machines are asked and made to do keeps two of them related (`Simulation`), then whatever
is evaluated, executed or called in both of them ends in both or in neither, with the same outcome
and in related machines (`alike_evaluate`, `alike_execute`, `pairs_callMethod`). They have to agree
on those functions only that are called without a receiver.
-/

namespace TypedImp

variable {α β : Type}

namespace Exec

/-- Both steps use up the budget, or both end, with the same outcome and in related machines. A
result is as wanted. -/
def Alike (R : Machine → Machine → Prop) (step step' : Exec α) (m m' : Machine)
    (post : α → Prop) : Prop :=
  Option.Rel (fun p p' => p.1 = p'.1 ∧ R p.2 p'.2 ∧ ∀ a, p.1 = .ok a → post a)
    (step.run m) (step'.run m')

variable {R : Machine → Machine → Prop} {m m' : Machine} {post : α → Prop} {post' : β → Prop}

theorem alike_exhausted : Alike R exhausted exhausted m m' post :=
  .none

theorem alike_pure {a : α} (hm : R m m') (ha : post a) : Alike R (pure a) (pure a) m m' post :=
  .some ⟨rfl, hm, by rintro _ ⟨⟩; exact ha⟩

theorem alike_throw {e : Error} (hm : R m m') : Alike R (throw e) (throw e) m m' post :=
  .some ⟨rfl, hm, fun _ h => nomatch h⟩

theorem alike_lift {o o' : Except Error α} (hm : R m m') (ho : o' = o)
    (hpost : ∀ a, o = .ok a → post a) : Alike R (liftM o) (liftM o') m m' post := by
  subst ho
  unfold Alike
  rw [run_lift, run_lift]
  exact .some ⟨rfl, hm, hpost⟩

theorem alike_bind {step step' : Exec α} {next next' : α → Exec β}
    (h : Alike R step step' m m' post)
    (hnext : ∀ a m₁ m₁', post a → R m₁ m₁' → Alike R (next a) (next' a) m₁ m₁' post') :
    Alike R (step >>= next) (step' >>= next') m m' post' := by
  unfold Alike at h ⊢
  rw [run_bind, run_bind]
  generalize step.run m = o, step'.run m' = o' at h
  cases h with
  | none => exact .none
  | @some p p' h =>
    obtain ⟨outcome, m₁⟩ := p
    obtain ⟨outcome', m₁'⟩ := p'
    obtain ⟨rfl, hm, hpost⟩ := h
    cases outcome with
    | ok a => exact hnext a m₁ m₁' (hpost a rfl) hm
    | error e => exact .some ⟨rfl, hm, fun _ h => nomatch h⟩

theorem alike_get_bind {next next' : Machine → Exec β}
    (h : Alike R (next m) (next' m') m m' post') :
    Alike R (get >>= next) (get >>= next') m m' post' :=
  h

theorem alike_lift_bind {o o' : Except Error α} {next next' : α → Exec β} (hm : R m m')
    (ho : o' = o) (h : ∀ a, o = .ok a → Alike R (next a) (next' a) m m' post') :
    Alike R (liftM o >>= next) (liftM o' >>= next') m m' post' := by
  subst ho
  unfold Alike
  rw [run_lift_bind, run_lift_bind]
  cases o' with
  | ok a => exact h a rfl
  | error e => exact .some ⟨rfl, hm, fun _ h => nomatch h⟩

theorem alike_inScope {R' : Machine → Machine → Prop} {step step' : Exec α} {p p' : ScopeId}
    (h : Alike R step step' (entered m p) (entered m' p') post)
    (hleft : ∀ m₁ m₁', R m₁ m₁' → R' (left m m₁) (left m' m₁')) :
    Alike R' (inScope p step) (inScope p' step') m m' post := by
  unfold Alike at h ⊢
  rw [run_inScope, run_inScope]
  generalize step.run _ = o, step'.run _ = o' at h
  cases h with
  | none => exact .none
  | some hp => exact .some ⟨hp.1, hleft _ _ hp.2.1, hp.2.2⟩

end Exec

open Exec

/-- Machines that are related at a depth of entered scopes are told apart by nothing that a run with
values of the stock can ask them. -/
structure Simulation {r : Registry} (S : Stock r) (r' : Registry) where
  Rel : Nat → Machine → Machine → Prop
  /-- What may be called without a receiver. -/
  known : String × Nat → Prop
  calls {key : String × Nat} {method : Typed.Method} {closure : ScopeId}
    (h : S.bound key (.method method closure)) : ∀ key ∈ Typed.blockCalls method.body, known key
  stocked {n : Nat} {m m' : Machine} (h : Rel n m m') : S.Stocked m
  lookupVariable {n : Nat} {m m' : Machine} (h : Rel n m m') (name : String) :
    m'.lookupVariable name = m.lookupVariable name
  lookupFunction {n : Nat} {m m' : Machine} (h : Rel n m m') {name : String} {arity : Nat}
    (hk : known (name, arity)) : m'.lookupFunction name arity = m.lookupFunction name arity
  readField {n : Nat} {m m' : Machine} (h : Rel n m m') {object : Value} (ho : S.good object)
    (name : String) : m'.readField r' object name = m.readField r object name
  resolveMethod {n : Nat} {m m' : Machine} (h : Rel n m m') {object : Value} (ho : S.good object)
    (name : String) (arity : Nat) :
    m'.resolveMethod r' object name arity = m.resolveMethod r object name arity
  refuse {n : Nat} {m m' : Machine} (h : Rel n m m') (line : String) :
    m'.sink.refuse m'.output line = m.sink.refuse m.output line
  print {n : Nat} {m m' : Machine} (h : Rel n m m') (text : String) :
    Rel n { m with output := m.output ++ text } { m' with output := m'.output ++ text }
  define {n : Nat} {m m' : Machine} (h : Rel n m m') {v : Value} (hv : S.good v) (name : String) :
    Alike (Rel n) (Exec.defineVariable name v) (Exec.defineVariable name v) m m' fun _ => True
  assign {n : Nat} {m m' : Machine} (h : Rel n m m') {v : Value} (hv : S.good v) (name : String) :
    Alike (Rel n) (Exec.setVariable m.current name v) (Exec.setVariable m'.current name v) m m'
      fun _ => True
  assignMember {n : Nat} {m m' : Machine} (h : Rel n m m') {object v : Value} {s : ScopeId}
    (ho : S.good object) (hs : object.members = some s) (hv : S.good v) (name : String) :
    Alike (Rel n) (Exec.setVariable s name v) (Exec.setVariable s name v) m m' fun _ => True
  block {n : Nat} {m m' : Machine} (h : Rel n m m') :
    Rel (n + 1) (entered m m.current) (entered m' m'.current)
  body {n : Nat} {m m' : Machine} (h : Rel n m m') {key : String × Nat} {method : Typed.Method}
    {closure : ScopeId} (hc : S.bound key (.method method closure)) :
    Rel (n + 1) (entered m closure) (entered m' closure)
  leave {n : Nat} {m m' m₁ m₁' : Machine} (h : Rel n m m') (h' : Rel (n + 1) m₁ m₁') :
    Rel n (left m m₁) (left m' m₁')

namespace Simulation

variable {r r' : Registry} {S : Stock r} (M : Simulation S r') {n : Nat} {m m' : Machine}
  {x x' : Context}

/-- Both contexts have calls run in the same way. -/
structure Pairs (x x' : Context) : Prop where
  registry : x.registry = r
  registry' : x'.registry = r'
  rounds : x'.rounds = x.rounds
  call {n : Nat} {m m' : Machine} {key : String × Nat} {method : Typed.Method}
    {closure : ScopeId} {values : List Value} (h : M.Rel n m m')
    (hc : S.bound key (.method method closure)) (hvalues : ∀ v ∈ values, S.good v) :
    Alike (M.Rel n) (x.call method closure values) (x'.call method closure values) m m' S.good

variable {M}

theorem alike_inBlock {body body' : Exec α} {post : α → Prop} (h : M.Rel n m m')
    (hbody : ∀ m₁ m₁', M.Rel (n + 1) m₁ m₁' → Alike (M.Rel (n + 1)) body body' m₁ m₁' post) :
    Alike (M.Rel n) (inBlock body) (inBlock body') m m' post :=
  alike_get_bind (alike_inScope (hbody _ _ (M.block h)) fun _ _ => M.leave h)

/-! ## Expressions -/

theorem alike_print (h : M.Rel n m m') (values : List Value) :
    Alike (M.Rel n) (Exec.print values) (Exec.print values) m m' S.good := by
  cases values with
  | nil => exact alike_throw h
  | cons v values =>
    have hrefuse := M.refuse h (v.toText ++ "\n")
    unfold Exec.print
    refine alike_get_bind ?_
    dsimp only
    rw [hrefuse]
    split
    · exact alike_throw h
    · exact .some ⟨rfl, M.print h _, by rintro _ ⟨⟩; exact S.good_nil⟩

theorem alike_invoke (hx : M.Pairs x x') (h : M.Rel n m m') {key : String × Nat}
    {callable : Callable} (hc : S.bound key callable) {values : List Value}
    (hvalues : ∀ v ∈ values, S.good v) :
    Alike (M.Rel n) (x.invoke callable values) (x'.invoke callable values) m m' S.good := by
  cases callable with
  | body body => exact alike_lift h rfl fun v hv => S.good_body hc hvalues hv
  | print => exact alike_print h values
  | method method closure => exact hx.call h hc hvalues

mutual

theorem alike_evaluate (hx : M.Pairs x x') : ∀ (e : Typed.Expr) {n : Nat} {m m' : Machine},
    (∀ key ∈ e.calls, M.known key) → M.Rel n m m' →
    Alike (M.Rel n) (x.evaluate e) (x'.evaluate e) m m' S.good
  | .literal value _, n, m, m', _, h => by
    unfold Context.evaluate
    exact alike_pure h (S.good_literal value)
  | .group inner _, n, m, m', hk, h => by
    unfold Typed.Expr.calls at hk
    unfold Context.evaluate
    exact alike_evaluate hx inner hk h
  | .binary (.connective operator) left right _, n, m, m', hk, h => by
    unfold Typed.Expr.calls at hk
    rw [List.forall_mem_append] at hk
    unfold Context.evaluate
    refine alike_bind (alike_evaluate hx left hk.1 h) fun v m₁ m₁' _ h₁ => ?_
    refine alike_lift_bind h₁ rfl fun a _ => ?_
    split_ifs
    · exact alike_pure h₁ (S.good_boolean a)
    · refine alike_bind (alike_evaluate hx right hk.2 h₁) fun w m₂ m₂' _ h₂ => ?_
      exact alike_lift_bind h₂ rfl fun b _ => alike_pure h₂ (S.good_boolean b)
  | .binary (.relation operator) left right _, n, m, m', hk, h => by
    unfold Typed.Expr.calls at hk
    rw [List.forall_mem_append] at hk
    unfold Context.evaluate
    refine alike_bind (alike_evaluate hx left hk.1 h) fun v m₁ m₁' _ h₁ => ?_
    refine alike_bind (alike_evaluate hx right hk.2 h₁) fun w m₂ m₂' _ h₂ => ?_
    exact alike_lift_bind h₂ rfl fun b _ => alike_pure h₂ (S.good_boolean b)
  | .binary (.arithmetic operator) left right _, n, m, m', hk, h => by
    unfold Typed.Expr.calls at hk
    rw [List.forall_mem_append] at hk
    unfold Context.evaluate
    refine alike_bind (alike_evaluate hx left hk.1 h) fun v m₁ m₁' _ h₁ => ?_
    refine alike_bind (alike_evaluate hx right hk.2 h₁) fun w m₂ m₂' _ h₂ => ?_
    exact alike_lift_bind h₂ rfl fun d hd => alike_pure h₂ (S.good_apply hd)
  | .var target _, n, m, m', _, h => by
    unfold Context.evaluate
    exact alike_get_bind (alike_lift h (M.lookupVariable h _)
      fun v hv => (M.stocked h).lookupVariable hv)
  | .field receiver target _, n, m, m', hk, h => by
    unfold Typed.Expr.calls at hk
    unfold Context.evaluate
    refine alike_bind (alike_evaluate hx receiver hk h) fun object m₁ m₁' ho h₁ => ?_
    rw [hx.registry, hx.registry']
    exact alike_get_bind (alike_lift h₁ (M.readField h₁ ho _)
      fun v hv => (M.stocked h₁).readField ho hv)
  | .call function arguments _, n, m, m', hk, h => by
    unfold Typed.Expr.calls at hk
    rw [List.forall_mem_cons] at hk
    unfold Context.evaluate
    refine alike_bind (alike_evaluateAll hx arguments hk.2 h) fun values m₁ m₁' hvalues h₁ => ?_
    have hkey : M.known (function.name, values.length) := hvalues.1 ▸ hk.1
    refine alike_get_bind (alike_lift_bind h₁ (M.lookupFunction h₁ hkey) fun callable hc => ?_)
    exact alike_invoke hx h₁ ((M.stocked h₁).lookupFunction hc) hvalues.2
  | .method receiver function arguments _, n, m, m', hk, h => by
    unfold Typed.Expr.calls at hk
    rw [List.forall_mem_append] at hk
    unfold Context.evaluate
    refine alike_bind (alike_evaluate hx receiver hk.1 h) fun object m₁ m₁' ho h₁ => ?_
    refine alike_bind (alike_evaluateAll hx arguments hk.2 h₁) fun values m₂ m₂' hvalues h₂ => ?_
    have hall : ∀ v ∈ object :: values, S.good v := List.forall_mem_cons.2 ⟨ho, hvalues.2⟩
    rw [hx.registry, hx.registry']
    refine alike_get_bind (alike_lift_bind h₂ (M.resolveMethod h₂ ho _ _) fun callable hc => ?_)
    rcases (M.stocked h₂).resolveMethod hc with ⟨_, -, hbound⟩ | ⟨_, body, hmethod, hb, rfl⟩
    · exact alike_invoke hx h₂ hbound hall
    · exact alike_lift h₂ rfl fun v hv => S.good_method hmethod hb hall hv

/-- There are as many values as expressions, so a function is looked up under the key that the call
was checked for. -/
theorem alike_evaluateAll (hx : M.Pairs x x') :
    ∀ (es : List Typed.Expr) {n : Nat} {m m' : Machine},
      (∀ key ∈ Typed.exprsCalls es, M.known key) → M.Rel n m m' →
      Alike (M.Rel n) (x.evaluateAll es) (x'.evaluateAll es) m m' fun values =>
        values.length = es.length ∧ ∀ v ∈ values, S.good v
  | [], n, m, m', _, h => by
    unfold Context.evaluateAll
    exact alike_pure h ⟨rfl, fun _ h => absurd h List.not_mem_nil⟩
  | e :: es, n, m, m', hk, h => by
    unfold Typed.exprsCalls at hk
    rw [List.forall_mem_append] at hk
    unfold Context.evaluateAll
    refine alike_bind (alike_evaluate hx e hk.1 h) fun v m₁ m₁' hv h₁ => ?_
    refine alike_bind (alike_evaluateAll hx es hk.2 h₁) fun values m₂ m₂' hvalues h₂ => ?_
    exact alike_pure h₂ ⟨congrArg (· + 1) hvalues.1, List.forall_mem_cons.2 ⟨hv, hvalues.2⟩⟩

end

/-! ## Statements -/

theorem alike_forEach {step step' : Value → Exec Flow} : ∀ {items : List Value} {m m' : Machine},
    (∀ item ∈ items, ∀ m m', M.Rel n m m' →
      Alike (M.Rel n) (step item) (step' item) m m' S.GoodFlow) → M.Rel n m m' →
    Alike (M.Rel n) (forEach step items) (forEach step' items) m m' S.GoodFlow
  | [], _, _, _, h => alike_pure h trivial
  | item :: items, m, m', hstep, h => by
    unfold forEach
    refine alike_bind (hstep item (.head _) m m' h) fun flow m₁ m₁' hflow h₁ => ?_
    cases flow with
    | normal => exact alike_forEach (fun i hi => hstep i (.tail _ hi)) h₁
    | returned v => exact alike_pure h₁ hflow

theorem alike_repeatWhile {condition condition' : Exec Bool} {body body' : Exec Flow}
    (hc : ∀ m m', M.Rel n m m' → Alike (M.Rel n) condition condition' m m' fun _ => True)
    (hb : ∀ m m', M.Rel n m m' → Alike (M.Rel n) body body' m m' S.GoodFlow) :
    ∀ {rounds : Nat} {m m' : Machine}, M.Rel n m m' →
      Alike (M.Rel n) (repeatWhile condition body rounds) (repeatWhile condition' body' rounds)
        m m' S.GoodFlow
  | 0, _, _, _ => alike_exhausted
  | rounds + 1, m, m', h => by
    unfold repeatWhile
    refine alike_bind (hc m m' h) fun b m₁ m₁' _ h₁ => ?_
    cases b with
    | false => exact alike_pure h₁ trivial
    | true =>
      refine alike_bind (hb m₁ m₁' h₁) fun flow m₂ m₂' hflow h₂ => ?_
      cases flow with
      | normal => exact alike_repeatWhile hc hb h₂
      | returned v => exact alike_pure h₂ hflow

theorem alike_initialValue (hx : M.Pairs x x') (value : Option Typed.Expr)
    (hk : ∀ key ∈ value.elim [] Typed.Expr.calls, M.known key) (h : M.Rel n m m') :
    Alike (M.Rel n) (x.initialValue value) (x'.initialValue value) m m' S.good := by
  cases value with
  | none => exact alike_pure h S.good_nil
  | some e => exact alike_evaluate hx e hk h

theorem alike_condition (hx : M.Pairs x x') (e : Typed.Expr) (hk : ∀ key ∈ e.calls, M.known key)
    (h : M.Rel n m m') :
    Alike (M.Rel n) (x.condition e) (x'.condition e) m m' fun _ => True :=
  alike_bind (alike_evaluate hx e hk h) fun _ _ _ _ h₁ => alike_lift h₁ rfl fun _ _ => trivial

theorem alike_assign (hx : M.Pairs x x') (value : Typed.Expr)
    (hv : ∀ key ∈ value.calls, M.known key) (h : M.Rel n m m') :
    ∀ target : Typed.Expr, (∀ key ∈ target.calls, M.known key) →
      Alike (M.Rel n) (x.assign value target) (x'.assign value target) m m' fun _ => True
  | .var target _, _ =>
    alike_bind (alike_evaluate hx value hv h) fun _ _ _ hgood h₁ =>
      alike_get_bind (M.assign h₁ hgood target.name)
  | .field receiver target _, hk => by
    unfold Typed.Expr.calls at hk
    refine alike_bind (alike_evaluate hx receiver hk h) fun object m₁ m₁' ho h₁ => ?_
    refine alike_bind (alike_evaluate hx value hv h₁) fun v m₂ m₂' hgood h₂ => ?_
    refine alike_lift_bind h₂ rfl fun s hs => ?_
    exact M.assignMember h₂ ho (Machine.memberScope_eq_ok.1 hs) hgood target.name
  | .literal _ _, _ | .group _ _, _ | .binary _ _ _ _, _ | .call _ _ _, _ | .method _ _ _ _, _ =>
    alike_throw h

mutual

theorem alike_execute (hx : M.Pairs x x') : ∀ (st : Typed.Stmt) {n : Nat} {m m' : Machine},
    (∀ key ∈ st.calls, M.known key) → M.Rel n m m' →
    Alike (M.Rel n) (x.execute st) (x'.execute st) m m' S.GoodFlow
  | .expression e, n, m, m', hk, h => by
    unfold Typed.Stmt.calls at hk
    unfold Context.execute
    exact alike_bind (alike_evaluate hx e hk h) fun _ _ _ _ h₁ => alike_pure h₁ trivial
  | .declaration target value, n, m, m', hk, h => by
    unfold Typed.Stmt.calls at hk
    unfold Context.execute
    refine alike_bind (alike_initialValue hx value hk h) fun v m₁ m₁' hv h₁ => ?_
    exact alike_bind (M.define h₁ hv _) fun _ _ _ _ h₂ => alike_pure h₂ trivial
  | .assignment target value, n, m, m', hk, h => by
    unfold Typed.Stmt.calls at hk
    rw [List.forall_mem_append] at hk
    unfold Context.execute
    exact alike_bind (alike_assign hx value hk.2 h target hk.1) fun _ _ _ _ h₁ =>
      alike_pure h₁ trivial
  | .conditional condition thenBody elseBody, n, m, m', hk, h => by
    unfold Typed.Stmt.calls at hk
    rw [List.forall_mem_append, List.forall_mem_append] at hk
    unfold Context.execute
    refine alike_bind (alike_condition hx condition hk.1 h) fun b m₁ m₁' _ h₁ => ?_
    split_ifs
    · exact alike_inBlock h₁ fun _ _ h => alike_executeBlock hx thenBody hk.2.1 h
    · exact alike_inBlock h₁ fun _ _ h => alike_executeBlock hx elseBody hk.2.2 h
  | .each target items body, n, m, m', hk, h => by
    unfold Typed.Stmt.calls at hk
    rw [List.forall_mem_append] at hk
    unfold Context.execute
    refine alike_bind (alike_evaluate hx items hk.1 h) fun v m₁ m₁' hv h₁ => ?_
    split
    · rename_i values hvalues
      refine alike_forEach (fun item hitem m m' h => alike_inBlock h fun m₂ m₂' h₂ => ?_) h₁
      refine alike_bind (M.define h₂ (S.good_item hv hvalues item hitem) _) fun _ m₃ m₃' _ h₃ => ?_
      exact alike_executeBlock hx body hk.2 h₃
    · exact alike_throw h₁
  | .loop condition body, n, m, m', hk, h => by
    unfold Typed.Stmt.calls at hk
    rw [List.forall_mem_append] at hk
    unfold Context.execute
    rw [hx.rounds]
    exact alike_repeatWhile (fun _ _ h => alike_condition hx condition hk.1 h)
      (fun _ _ h => alike_inBlock h fun _ _ h => alike_executeBlock hx body hk.2 h) h
  | .ret value, n, m, m', hk, h => by
    unfold Typed.Stmt.calls at hk
    unfold Context.execute
    exact alike_bind (alike_evaluate hx value hk h) fun _ _ _ hv h₁ => alike_pure h₁ hv

theorem alike_executeBlock (hx : M.Pairs x x') :
    ∀ (ss : List Typed.Stmt) {n : Nat} {m m' : Machine},
      (∀ key ∈ Typed.blockCalls ss, M.known key) → M.Rel n m m' →
      Alike (M.Rel n) (x.executeBlock ss) (x'.executeBlock ss) m m' S.GoodFlow
  | [], n, m, m', _, h => by
    unfold Context.executeBlock
    exact alike_pure h trivial
  | st :: ss, n, m, m', hk, h => by
    unfold Typed.blockCalls at hk
    rw [List.forall_mem_append] at hk
    unfold Context.executeBlock
    refine alike_bind (alike_execute hx st hk.1 h) fun flow m₁ m₁' hflow h₁ => ?_
    cases flow with
    | normal => exact alike_executeBlock hx ss hk.2 h₁
    | returned v => exact alike_pure h₁ hflow

end

/-! ## Methods -/

theorem alike_defineParameters : ∀ {names : List String} {values : List Value} {m m' : Machine},
    (∀ v ∈ values, S.good v) → M.Rel n m m' →
    Alike (M.Rel n) (Exec.defineParameters names values) (Exec.defineParameters names values) m m'
      fun _ => True
  | [], _, _, _, _, h => alike_pure h trivial
  | _ :: _, [], _, _, _, h => alike_pure h trivial
  | name :: names, v :: values, m, m', hvalues, h => by
    rw [List.forall_mem_cons] at hvalues
    exact alike_bind (M.define h hvalues.1 name) fun _ _ _ _ h₁ =>
      alike_defineParameters hvalues.2 h₁

/-- The body of a method, once its scope is entered in both machines. -/
theorem alike_body (hx : M.Pairs x x') {method : Typed.Method}
    (hk : ∀ key ∈ Typed.blockCalls method.body, M.known key) {values : List Value}
    (hvalues : ∀ v ∈ values, S.good v) (h : M.Rel n m m') :
    Alike (M.Rel n)
      (do
        Exec.defineParameters method.parameters values
        match ← x.executeBlock method.body with
        | .returned value => return value
        | .normal => return .nil)
      (do
        Exec.defineParameters method.parameters values
        match ← x'.executeBlock method.body with
        | .returned value => return value
        | .normal => return .nil) m m' S.good := by
  refine alike_bind (alike_defineParameters hvalues h) fun _ m₁ m₁' _ h₁ => ?_
  refine alike_bind (alike_executeBlock hx method.body hk h₁) fun flow m₂ m₂' hflow h₂ => ?_
  cases flow with
  | normal => exact alike_pure h₂ S.good_nil
  | returned v => exact alike_pure h₂ hflow

theorem pairs_callMethod (M : Simulation S r') (rounds : Nat) : ∀ depth : Nat,
    M.Pairs ⟨r, callMethod r rounds depth, rounds⟩ ⟨r', callMethod r' rounds depth, rounds⟩
  | 0 => ⟨rfl, rfl, rfl, fun _ _ _ => alike_exhausted⟩
  | depth + 1 => by
    refine ⟨rfl, rfl, rfl, fun {n m m' key method closure values} h hc hvalues => ?_⟩
    simp only [callMethod]
    split_ifs
    · exact alike_throw h
    · exact alike_inScope (alike_body (pairs_callMethod M rounds depth) (M.calls hc) hvalues
        (M.body h hc)) fun _ _ => M.leave h

theorem alike_callMain (hx : M.Pairs x x') (h : M.Rel n m m')
    (hlookup : m'.scopes.lookupFunction Machine.root "main" 0 =
      m.scopes.lookupFunction Machine.root "main" 0) :
    Alike (M.Rel n) (do x.invoke (← (← get).scopes.lookupFunction Machine.root "main" 0) [])
      (do x'.invoke (← (← get).scopes.lookupFunction Machine.root "main" 0) []) m m' S.good := by
  refine alike_get_bind (alike_lift_bind h hlookup fun callable hc => ?_)
  exact alike_invoke hx h (Arena.Fills.lookupFunction (M.stocked h) hc)
    fun _ hv => absurd hv List.not_mem_nil

end Simulation

end TypedImp
