import Mathlib.Logic.Relation
import TypedImp.Proofs.Types.Ledger
import TypedImp.Proofs.Typing.Arity

/-!
# While a check is under way

A check goes through one part of a program after the other (`Leads`). A host may have defined and
checked anything before (`Reached`), with success or without. Wherever a check gets to then, every
function is kept under its own name and number of parameters, and a call that has found its function
has a parameter for each argument, so none stays unchecked (`arguments_checked`).
-/

namespace TypedImp

/-- A host has built the registry by calls, any of which may have failed. -/
def Registry.Built (r : Registry) : Prop :=
  ∃ calls, (Ledger.builtin.afterAll calls).registry = r

theorem Registry.Built.reachable {r : Registry} (h : r.Built) : r.Reachable := by
  obtain ⟨calls, rfl⟩ := h
  exact (Ledger.InStep.builtin.afterAll calls).reachable

/-- In every live scope, each function is kept under its own name and number of parameters. -/
def Arena.Filed {V F : Type} (function : F → Function) (a : Arena V F) : Prop :=
  ∀ s scope, a.get? s = some scope → ∀ name n f, scope.funs.get? (name, n) = some f →
    (function f).name = name ∧ (function f).parameters.length = n

theorem Arena.filed_of_all {V F : Type} {function : F → Function} {var : String → V → Prop}
    {a : Arena V F} (h : a.All var fun key f => key = ((function f).name, (function f).arity)) :
    a.Filed function := by
  intro s scope hs name n f hf
  obtain ⟨hname, harity⟩ := Prod.mk.inj ((h s scope hs).funs (name, n) f hf)
  exact ⟨hname.symm, harity.symm⟩

namespace Typing

open Check
open Typed (Application)

/-! ## Subjects -/

/-- What a check can go through. -/
inductive Subject where
  | expr (e : Source.Expr)
  | exprs (es : List Source.Expr)
  | stmt (s : Source.Stmt)
  | block (ss : List Source.Stmt)
  | field (f : Source.Field)
  | fields (fs : List Source.Field)
  | method (m : Source.Method)
  | methods (ms : List Source.Method)
  | program (p : Source.Program)

namespace Subject

/-- What the subject looks like when it is decorated. -/
def Tree : Subject → Type
  | expr _ => Typed.Expr
  | exprs _ => List Typed.Expr
  | stmt _ => Typed.Stmt
  | block _ => List Typed.Stmt
  | field _ => Typed.Field
  | fields _ => List Typed.Field
  | method _ => Typed.Method
  | methods _ => List Typed.Method
  | program _ => Typed.Program

def check (r : Registry) : (x : Subject) → Check x.Tree
  | expr e => expression r e
  | exprs es => do checkExprs r (← get) es
  | stmt s => checkStmt r s
  | block ss => checkBlock r ss
  | field f => checkField r f
  | fields fs => fs.mapM (checkField r)
  | method m => checkMethod r m
  | methods ms => ms.mapM (checkMethod r)
  | program p => checkProgram r p

/-- The calls in a decorated subject. -/
def applications : (x : Subject) → x.Tree → List Application
  | expr _, t => Typed.Expr.applications t
  | exprs _, ts => Typed.exprsApplications ts
  | stmt _, t => Typed.Stmt.applications t
  | block _, ts => Typed.blockApplications ts
  | field _, t => Typed.Field.applications t
  | fields _, ts => List.flatMap Typed.Field.applications ts
  | method _, t => Typed.Method.applications t
  | methods _, ts => List.flatMap Typed.Method.applications ts
  | program _, t => Typed.Program.applications t

/-- The methods in a decorated subject. -/
def decorated : (x : Subject) → x.Tree → List Typed.Method
  | method _, t => [t]
  | methods _, ts => ts
  | program _, t => Typed.Program.methods t
  | _, _ => []

/-- What is gone through within the subject before a scope is entered or a name defined. -/
def parts : Subject → List Subject
  | expr (.literal _) | expr (.var _) => []
  | expr (.group inner) => [expr inner]
  | expr (.binary _ left right) => [expr left, expr right]
  | expr (.field receiver _) => [expr receiver]
  | expr (.call _ arguments) => [exprs arguments]
  | expr (.method receiver _ arguments) => [expr receiver, exprs arguments]
  | exprs [] | block [] | fields [] | methods [] => []
  | exprs (e :: es) => [expr e, exprs es]
  | stmt (.expression e) | stmt (.ret e) => [expr e]
  | stmt (.declaration _ _ value) => value.toList.map expr
  | stmt (.assignment target value) => [expr target, expr value]
  | stmt (.conditional e _ _) | stmt (.each _ e _) | stmt (.loop e _) => [expr e]
  | block (s :: _) => [stmt s]
  | field f => f.value.toList.map expr
  | fields (f :: _) => [field f]
  | method _ => []
  | methods (m :: _) => [method m]
  | program p => [fields p.fields]

end Subject

/-- A check that has got to a subject. -/
structure Visit where
  subject : Subject
  state : Checker

/-- Where a check may get to next from what it has got to, if nothing before that fails. Scopes are
entered as `Check.inScope` enters them, and what has been gone through before leaves its state. -/
inductive Leads (r : Registry) : Visit → Visit → Prop
  | part {x y : Subject} {c : Checker} (h : y ∈ x.parts) : Leads r ⟨x, c⟩ ⟨y, c⟩
  | thenBody {e : Source.Expr} {ss ss' : List Source.Stmt} {c : Checker} :
      Leads r ⟨.stmt (.conditional e ss ss'), c⟩ ⟨.block ss, entered (after (checkCondition r e) c)⟩
  | elseBody {e : Source.Expr} {ss ss' : List Source.Stmt} {c : Checker} :
      Leads r ⟨.stmt (.conditional e ss ss'), c⟩
        ⟨.block ss', entered (after (inScope (checkBlock r ss)) (after (checkCondition r e) c))⟩
  | round {name : String} {items : Source.Expr} {ss : List Source.Stmt} {c : Checker} :
      Leads r ⟨.stmt (.each name items ss), c⟩
        ⟨.block ss, after (Check.defineVariable (.plain name .integer))
          (entered (after (expression r items) c))⟩
  | loopBody {e : Source.Expr} {ss : List Source.Stmt} {c : Checker} :
      Leads r ⟨.stmt (.loop e ss), c⟩ ⟨.block ss, entered (after (checkCondition r e) c)⟩
  | nextStmt {s : Source.Stmt} {ss : List Source.Stmt} {c : Checker} :
      Leads r ⟨.block (s :: ss), c⟩ ⟨.block ss, after (checkStmt r s) c⟩
  | nextField {f : Source.Field} {fs : List Source.Field} {c : Checker} :
      Leads r ⟨.fields (f :: fs), c⟩ ⟨.fields fs, after (checkField r f) c⟩
  -- which types the names of a method stand for, and whether they stand for any, is left open
  | body {m : Source.Method} {types : List TypeId} {result : TypeId} {c : Checker} :
      Leads r ⟨.method m, c⟩
        ⟨.block m.body, after (defineParameters m.parameters types)
          (entered { after (Check.defineFunction (.plain m.name types result)) c with
            result := some result })⟩
  | nextMethod {m : Source.Method} {ms : List Source.Method} {c : Checker} :
      Leads r ⟨.methods (m :: ms), c⟩ ⟨.methods ms, after (checkMethod r m) c⟩
  | methods {p : Source.Program} {c : Checker} :
      Leads r ⟨.program p, c⟩ ⟨.methods p.methods, after (p.fields.mapM (checkField r)) c⟩

/-- The check has got to a call, and the arguments and the function of that call are known. What is
next is to go through arguments and parameters, behind those to skip. -/
inductive Visit.Applies (r : Registry) : Visit → Application → Prop
  | call {name : String} {es : List Source.Expr} {ts : List Typed.Expr} {f : Function} {c : Checker}
      (hs : checkExprs r c es = .ok ts) (h : c.lookupFunction name ts.length = .ok f) :
      Visit.Applies r ⟨.expr (.call name es), c⟩ ⟨f, 0, ts⟩
  | method {e : Source.Expr} {t : Typed.Expr} {name : String} {es : List Source.Expr}
      {ts : List Typed.Expr} {method : MethodMember} {c : Checker} (he : checkExpr r c e = .ok t)
      (hs : checkExprs r c es = .ok ts) (h : r.method t.type name ts.length = .ok method) :
      Visit.Applies r ⟨.expr (.method e name es), c⟩ ⟨method.toFunction, 1, ts⟩

/-- The states in which a host can have a check between two things that it asks for. A definition
that fails changes nothing. -/
inductive Reached : Checker → Prop
  | initial : Reached .initial
  | defineVariable {c c' : Checker} {v : Variable} (h : Reached c)
      (ok : c.defineVariable v = .ok c') : Reached c'
  | defineFunction {c c' : Checker} {f : Function} (h : Reached c)
      (ok : c.defineFunction f = .ok c') : Reached c'
  | check {c : Checker} {r : Registry} (h : Reached c) (hr : r.Built) (x : Subject) :
      Reached (after (x.check r) c)

variable {r : Registry} {c : Checker} {v w : Visit} {a : Application}

/-! ## What is kept -/

theorem ensures_checkExprs (hr : r.Reachable) (es : List Source.Expr) :
    Ensures ((Subject.exprs es).check r) fun ts => AllFit r (Typed.exprsApplications ts) :=
  ensures_get_bind_lift fun _ hc _ => allFit_of_checkExprs hr hc es

/-- Whatever is checked, there is a name for every parameter of a method, and every call fits. -/
theorem Subject.ensures_check (hr : r.Reachable) : ∀ x : Subject, Ensures (x.check r) fun t =>
    (∀ method ∈ x.decorated t, method.parameters.length = method.function.parameters.length) ∧
      AllFit r (x.applications t)
  | expr e => (ensures_expression hr e).mono fun _ h => ⟨nofun, h⟩
  | exprs es => (ensures_checkExprs hr es).mono fun _ h => ⟨nofun, h⟩
  | stmt s => (ensures_checkStmt hr s).mono fun _ h => ⟨nofun, h⟩
  | block ss => (ensures_checkBlock hr ss).mono fun _ h => ⟨nofun, h⟩
  | field f => (ensures_checkField hr f).mono fun _ h => ⟨nofun, h⟩
  | fields fs => (ensures_mapM (ensures_checkField hr) fs).mono fun _ h =>
    ⟨nofun, List.forall_mem_flatMap.2 h⟩
  | method m => (ensures_checkMethod hr m).mono fun _ h => ⟨List.forall_mem_singleton.2 h.1, h.2⟩
  | methods ms => (ensures_mapM (ensures_checkMethod hr) ms).mono fun _ h =>
    ⟨fun method hm => (h method hm).1,
      List.forall_mem_flatMap.2 fun method hm => (h method hm).2⟩
  | program p => ensures_checkProgram hr p

theorem Leads.keyed (hr : r.Reachable) (h : Leads r v w) (hv : v.state.Keyed) : w.state.Keyed := by
  cases h with
  | part _ => exact hv
  | @thenBody e ss ss' c => exact ((ensures_checkCondition hr e).keyed hv).entered
  | @elseBody e ss ss' c =>
    have hcondition := (ensures_checkCondition hr e).keyed hv
    exact ((ensures_checkBlock hr ss).inScope.keyed hcondition).entered
  | @round name items ss c =>
    have hitems := (ensures_expression hr items).keyed hv
    exact (ensures_defineVariable (.plain name .integer)).keyed hitems.entered
  | @loopBody e ss c => exact ((ensures_checkCondition hr e).keyed hv).entered
  | @nextStmt s ss c => exact (ensures_checkStmt hr s).keyed hv
  | @nextField f fs c => exact (ensures_checkField hr f).keyed hv
  | @body m types result c =>
    have hmethod := (ensures_defineFunction (.plain m.name types result)).keyed hv
    exact (ensures_defineParameters m.parameters types).keyed (Arena.All.enter hmethod _)
  | @nextMethod m ms c => exact (ensures_checkMethod hr m).keyed hv
  | @methods p c => exact (ensures_mapM (ensures_checkField hr) p.fields).keyed hv

/-- However far a check gets, functions are where they belong. -/
theorem keyed_of_leads (hr : r.Reachable) (h : Relation.ReflTransGen (Leads r) v w)
    (hv : v.state.Keyed) : w.state.Keyed := by
  induction h with
  | refl => exact hv
  | tail _ h ih => exact h.keyed hr ih

theorem Reached.keyed (h : Reached c) : c.Keyed := by
  induction h with
  | initial => exact .initial
  | defineVariable _ ok ih =>
    simp only [Checker.defineVariable, bind_eq_ok, pure_eq_ok, Arena.defineVariable_eq_ok] at ok
    obtain ⟨scopes, ⟨-, rfl⟩, rfl⟩ := ok
    exact ih.bindVariable Checker.root rfl
  | defineFunction _ ok ih =>
    simp only [Checker.defineFunction, bind_eq_ok, pure_eq_ok, Arena.defineFunction_eq_ok] at ok
    obtain ⟨scopes, ⟨-, rfl⟩, rfl⟩ := ok
    exact ih.bindFunction Checker.root rfl
  | check _ hr x ih => exact (x.ensures_check hr.reachable).keyed ih

/-! ## Calls that have found their functions -/

theorem Visit.Applies.exact (hr : r.Reachable) (h : v.Applies r a) (hv : v.state.Keyed)
    (counted : a.Counted) : a.Exact := by
  cases h with
  | call _ h => exact exact_of_lookupFunction hv h
  -- counted with its receiver, the call must not wrap around to a method with fewer parameters
  | method _ _ h => exact exact_of_method hr h counted

theorem run_expression (r : Registry) (e : Source.Expr) (c : Checker) :
    (expression r e).run c = (checkExpr r c e, c) := by
  change (liftM (checkExpr r c e) : Check Typed.Expr).run c = _
  cases checkExpr r c e <;> rfl

/-- A call is accepted if and only if each of its arguments is assignable to a parameter. -/
theorem Visit.Applies.accepted_iff (h : v.Applies r a) (exact : a.Exact) :
    (∃ t, ((v.subject.check r).run v.state).1 = .ok t) ↔ a.Fits r := by
  rw [exact.fits_iff]
  cases h with
  | @call name es ts f c hs h =>
    change (∃ t, ((expression r (.call name es)).run c).1 = .ok t) ↔ _
    simp only [run_expression, checkExpr, hs, h, bind_eq_ok, pure_eq_ok, requireArguments_eq_ok,
      Except.ok.injEq, exists_eq_left', List.drop_zero]
    simp
  | @method e t name es ts method c he hs h =>
    change (∃ t, ((expression r (.method e name es)).run c).1 = .ok t) ↔ _
    simp only [run_expression, checkExpr, he, hs, h, bind_eq_ok, pure_eq_ok, requireArguments_eq_ok,
      Except.ok.injEq, exists_eq_left']
    simp

/-- Whatever has been defined and checked before, functions are kept under their own names and
numbers of parameters in a registry and at every moment of a check, and so a call that has found its
function has a parameter for each argument. It is accepted if all of them are assignable and only
then, and so is each call in what a check gives. -/
theorem arguments_checked (hr : r.Built) (hc : Reached c) (x : Subject) :
    r.members.Filed MethodMember.toFunction ∧
    (∀ v, Relation.ReflTransGen (Leads r) ⟨x, c⟩ v →
      v.state.scopes.Filed id ∧ (after (v.subject.check r) v.state).scopes.Filed id ∧
      ∀ a, v.Applies r a → a.Counted → a.Exact ∧
        ((∃ t, ((v.subject.check r).run v.state).1 = .ok t) ↔ a.Fits r)) ∧
    ∀ t, ((x.check r).run c).1 = .ok t →
      (∀ a ∈ x.applications t, a.Counted → a.Fits r) ∧
      ∀ method ∈ x.decorated t,
        method.parameters.length = method.function.parameters.length := by
  have hreachable := hr.reachable
  refine ⟨Arena.filed_of_all hreachable.keyed, fun v hv => ?_, fun t ht => ?_⟩
  · have hkeyed := keyed_of_leads hreachable hv hc.keyed
    have hafter := (v.subject.ensures_check hreachable).keyed hkeyed
    refine ⟨Arena.filed_of_all hkeyed, Arena.filed_of_all hafter, fun a ha counted => ?_⟩
    have hexact := ha.exact hreachable hkeyed counted
    exact ⟨hexact, ha.accepted_iff hexact⟩
  · exact ((x.ensures_check hreachable c hc.keyed).2 t ht).symm

/-- A method that strings have once, as a second definition of it fails. -/
def repeated : MethodMember :=
  ⟨.plain "repeated" [.string, .integer] .string, none⟩

def repeatable : Registry :=
  (Ledger.builtin.afterAll (List.replicate 2 (.defineMethod .string repeated))).registry

def pair : Function :=
  .plain "pair" [.any, .any] .any

def withPair : Checker :=
  { Checker.initial with
    scopes := Checker.initial.scopes.bindFunction Checker.root "pair" 2 pair }

theorem defineFunction_pair : Checker.initial.defineFunction pair = .ok withPair :=
  rfl

/-- A method whose result is not declared. It is known by the time that its body fails. -/
def once : Source.Method :=
  ⟨"once", [], [], none, [.ret (.literal (.integer 1))]⟩

def afterOnce : Checker :=
  after (checkMethod repeatable once) withPair

/-- The call `print(pair("a".repeated(2), once()))`. -/
def nested : Source.Expr :=
  .call "print" [.call "pair"
    [.method (.literal (.string "a")) "repeated" [.literal (.integer 2)], .call "once" []]]

/-- Which function is called, behind how many parameters, and with how many arguments. -/
def outline (a : Application) : String × Nat × Nat :=
  (a.function.name, a.skipped, a.arguments.length)

theorem arguments_checked_nested : repeatable.Built ∧ Reached afterOnce ∧
    ∃ t, ((expression repeatable nested).run afterOnce).1 = .ok t ∧
      t.applications.map outline =
        [("print", 0, 1), ("pair", 0, 2), ("repeated", 1, 1), ("once", 0, 0)] ∧
      ∀ a ∈ t.applications, a.Fits repeatable := by
  have built : repeatable.Built := ⟨_, rfl⟩
  have reached : Reached afterOnce :=
    .check (.defineFunction .initial defineFunction_pair) built (.method once)
  have houtline : ((expression repeatable nested).run afterOnce).1.toOption.map
      (fun t => t.applications.map outline) =
        some [("print", 0, 1), ("pair", 0, 2), ("repeated", 1, 1), ("once", 0, 0)] := by
    decide +kernel
  obtain ⟨t, ht, houtline⟩ := exists_of_view houtline
  have hfits := ((arguments_checked built reached (.expr nested)).2.2 t ht).1
  refine ⟨built, reached, t, ht, houtline, fun a ha => hfits a ha ?_⟩
  have hcounts : (outline a).2.2 + (outline a).2.1 < 18446744073709551616 := by
    have hmem := List.mem_map_of_mem (f := outline) ha
    rw [houtline] at hmem
    generalize outline a = shape at hmem ⊢
    revert shape
    decide
  exact hcounts

end Typing

end TypedImp
