import TypedImp.Proofs.Typing.Keeping

/-!
# Arguments and their parameters

Functions are kept under their own names and numbers of parameters (`Checker.Keyed`), so a function
that is found for some arguments has a parameter for each of them, and a method has one more in
front, for its receiver (`exact_of_lookupFunction`, `exact_of_method`). No step of a check changes
that, whatever its outcome, and every call in what a check gives fits the function that it calls
(`Check.Ensures`).
-/

namespace TypedImp

namespace Typed

/-- A function with the arguments that it is called with. Its first parameters are skipped if they
have no argument: a method has one for its receiver. -/
structure Application where
  function : Function
  skipped : Nat
  arguments : List Expr

namespace Application

/-- Arities have 64 bits, and a list in memory is shorter than half of what these count to, so there
is always room for the receiver. -/
def Counted (a : Application) : Prop :=
  a.arguments.length + a.skipped < 18446744073709551616

/-- The parameters go as far as they are skipped, and one is left for each argument. -/
structure Exact (a : Application) : Prop where
  inRange : a.skipped ≤ a.function.parameters.length
  count : (a.function.parameters.drop a.skipped).length = a.arguments.length

/-- Every argument has been found assignable to the parameter that it is for. -/
structure Fits (r : Registry) (a : Application) : Prop extends Exact a where
  assignable (i : Nat) (argument : Expr) (h : a.arguments[i]? = some argument) :
    ∃ parameter, a.function.parameters[i + a.skipped]? = some parameter ∧
      r.requireAssignable parameter argument.type = .ok ()

theorem exact_of_arity {f : Function} {k : Nat} {ts : List Expr} (h : f.arity = ts.length + k) :
    Exact ⟨f, k, ts⟩ := by
  change f.parameters.length = _ at h
  constructor
  case inRange => exact h ▸ Nat.le_add_left k ts.length
  case count => rw [List.length_drop, h, Nat.add_sub_cancel]

/-- What is skipped aside, parameters and arguments are paired until both are used up. -/
theorem Exact.fits_iff {r : Registry} {a : Application} (h : a.Exact) :
    a.Fits r ↔ ArgumentsFit (a.function.parameters.drop a.skipped) a.arguments := by
  constructor
  · intro hfits i parameter hp argument ha
    -- parameter `i` behind those skipped is parameter `i + skipped` of all
    obtain ⟨parameter', hp', ok⟩ := hfits.assignable i argument ha
    rw [Option.mem_def, List.getElem?_drop, Nat.add_comm, hp'] at hp
    cases hp
    exact Typing.requireAssignable_eq_ok.1 ok
  · refine fun hfit => ⟨h, fun i argument ha => ?_⟩
    have hi : i < (a.function.parameters.drop a.skipped).length :=
      h.count ▸ (List.getElem?_eq_some_iff.1 ha).1
    have hp := List.getElem?_eq_getElem hi
    refine ⟨_, ?_, Typing.requireAssignable_eq_ok.2 (hfit i _ hp argument ha)⟩
    rw [Nat.add_comm, ← List.getElem?_drop, hp]

end Application

/-! ## The calls of decorated programs -/

mutual

/-- The calls in an expression, from left to right, each in front of those in its arguments. -/
def Expr.applications : Expr → List Application
  | .literal _ _ | .var _ _ => []
  | .group inner _ => inner.applications
  | .binary _ left right _ => left.applications ++ right.applications
  | .field receiver _ _ => receiver.applications
  | .call function arguments _ => ⟨function, 0, arguments⟩ :: exprsApplications arguments
  | .method receiver function arguments _ =>
    ⟨function, 1, arguments⟩ :: (receiver.applications ++ exprsApplications arguments)

def exprsApplications : List Expr → List Application
  | [] => []
  | e :: es => e.applications ++ exprsApplications es

end

mutual

def Stmt.applications : Stmt → List Application
  | .expression e | .ret e => e.applications
  | .declaration _ value => value.elim [] Expr.applications
  | .assignment target value => target.applications ++ value.applications
  | .conditional condition thenBody elseBody =>
    condition.applications ++ (blockApplications thenBody ++ blockApplications elseBody)
  | .each _ items body | .loop items body => items.applications ++ blockApplications body

def blockApplications : List Stmt → List Application
  | [] => []
  | s :: ss => s.applications ++ blockApplications ss

end

def Field.applications (field : Field) : List Application :=
  field.value.elim [] Expr.applications

def Method.applications (method : Method) : List Application :=
  blockApplications method.body

def Program.applications (p : Program) : List Application :=
  p.fields.flatMap Field.applications ++ p.methods.flatMap Method.applications

end Typed

/-- All of these calls fit. -/
def AllFit (r : Registry) (as : List Typed.Application) : Prop :=
  ∀ a ∈ as, a.Counted → a.Fits r

namespace AllFit

variable {r : Registry} {a : Typed.Application} {as bs : List Typed.Application}

theorem nil : AllFit r [] :=
  fun _ h => absurd h List.not_mem_nil

theorem cons (h : a.Counted → a.Fits r) (hs : AllFit r as) : AllFit r (a :: as) :=
  List.forall_mem_cons.2 ⟨h, hs⟩

theorem append (h : AllFit r as) (h' : AllFit r bs) : AllFit r (as ++ bs) :=
  List.forall_mem_append.2 ⟨h, h'⟩

end AllFit

/-! ## Where functions are kept -/

/-- Variables and functions are kept under their own names, functions with their numbers of
parameters. -/
def Checker.Keyed (c : Checker) : Prop :=
  c.scopes.All (fun name v => name = v.name) fun key f => key = (f.name, f.arity)

namespace Checker.Keyed

variable {c : Checker}

theorem initial : Checker.initial.Keyed :=
  (Arena.All.empty.enter none).bindFunction root rfl

theorem entered (h : c.Keyed) : (Check.entered c).Keyed :=
  h.enter _

theorem declare (h : c.Keyed) (v : Variable) : (c.declare v).Keyed :=
  h.bindVariable c.current rfl

theorem declareFunction (h : c.Keyed) (f : Function) : (c.declareFunction f).Keyed :=
  h.bindFunction c.current rfl

end Checker.Keyed

open Typed (Application)

theorem exact_of_lookupFunction {c : Checker} (hc : c.Keyed) {name : String} {f : Function}
    {ts : List Typed.Expr} (h : c.lookupFunction name ts.length = .ok f) :
    Application.Exact ⟨f, 0, ts⟩ := by
  obtain ⟨-, harity⟩ := Prod.mk.inj (Arena.All.lookupFunction hc h)
  exact Application.exact_of_arity harity.symm

theorem exact_of_method {r : Registry} (hr : r.Reachable) {type : TypeId} {name : String}
    {method : MethodMember} {ts : List Typed.Expr} (h : r.method type name ts.length = .ok method)
    (counted : Application.Counted ⟨method.toFunction, 1, ts⟩) :
    Application.Exact ⟨method.toFunction, 1, ts⟩ := by
  refine Application.exact_of_arity ((hr.arity_of_method h).trans ?_)
  exact Nat.mod_eq_of_lt counted

/-! ## What checks ensure -/

namespace Check

variable {α β : Type} {P : α → Prop} {Q : β → Prop} {step : Check α}

/-- The state that a step leaves, whatever its outcome. -/
def after (step : Check α) (c : Checker) : Checker :=
  (step.run c).2

/-- The step leaves functions where they belong, whatever its outcome, and its result is as
wanted. -/
def Ensures (step : Check α) (P : α → Prop) : Prop :=
  ∀ c : Checker, c.Keyed → (step.run c).2.Keyed ∧ ∀ a, (step.run c).1 = .ok a → P a

theorem Ensures.mono {P' : α → Prop} (h : Ensures step P) (himp : ∀ a, P a → P' a) :
    Ensures step P' :=
  fun c hc => ⟨(h c hc).1, fun a ha => himp a ((h c hc).2 a ha)⟩

theorem Ensures.keyed (h : Ensures step P) {c : Checker} (hc : c.Keyed) : (after step c).Keyed :=
  (h c hc).1

theorem ensures_of_keeps (h : Keeps step)
    (hP : ∀ c a, c.Keyed → (step.run c).1 = .ok a → P a) : Ensures step P :=
  fun c hc => ⟨(h c).symm ▸ hc, fun a => hP c a hc⟩

theorem ensures_pure {a : α} (h : P a) : Ensures (pure a) P :=
  ensures_of_keeps (keeps_pure a) fun _ _ _ hb => Except.ok.inj hb ▸ h

theorem ensures_throw (e : Error) : Ensures (throw e) P :=
  ensures_of_keeps (keeps_throw e) fun _ _ _ ha => nomatch ha

theorem ensures_lift (o : Except Error α) : Ensures (liftM o) fun _ => True :=
  ensures_of_keeps (keeps_lift o) fun _ _ _ _ => trivial

theorem Ensures.bind {next : α → Check β} (h : Ensures step P)
    (hnext : ∀ a, P a → Ensures (next a) Q) : Ensures (step >>= next) Q := by
  intro c hc
  obtain ⟨hkeyed, hP⟩ := h c hc
  rw [Check.run_bind]
  rcases hstep : step.run c with ⟨e | a, c'⟩
  all_goals rw [hstep] at hkeyed hP
  · -- a step that fails may have defined something before, and `next` is not run
    exact ⟨hkeyed, nofun⟩
  · exact hnext a (hP a rfl) c' hkeyed

theorem ensures_get_bind_lift {o : Checker → Except Error α}
    (h : ∀ c, c.Keyed → ∀ a, o c = .ok a → P a) : Ensures (get >>= fun c => liftM (o c)) P := by
  refine ensures_of_keeps (keeps_get.bind fun c => keeps_lift (o c)) fun c a hc ha => ?_
  obtain ⟨c', hgives⟩ := Typing.run_eq_ok.1 ha
  simp only [gives_bind, gives_get, gives_lift] at hgives
  obtain ⟨_, _, ⟨rfl, rfl⟩, ho, -⟩ := hgives
  exact h _ hc a ho

theorem ensures_get_bind {next : Checker → Check β} (h : ∀ c, Ensures (next c) Q) :
    Ensures (get >>= next) Q :=
  (ensures_of_keeps (P := fun _ => True) keeps_get fun _ _ _ _ => trivial).bind fun c _ => h c

theorem ensures_mapM_option {f : α → Check β} (h : ∀ a, Ensures (f a) Q) :
    ∀ x : Option α, Ensures (x.mapM f) fun y => ∀ b ∈ y, Q b
  | none => ensures_pure nofun
  | some a => by
    change Ensures (some <$> f a) _
    rw [← bind_pure_comp]
    exact (h a).bind fun b hb => ensures_pure fun b' hb' => Option.some.inj hb' ▸ hb

theorem ensures_mapM {f : α → Check β} (h : ∀ a, Ensures (f a) Q) :
    ∀ xs : List α, Ensures (xs.mapM f) fun ys => ∀ b ∈ ys, Q b
  | [] => by
    rw [List.mapM_nil]
    exact ensures_pure fun _ hb => absurd hb List.not_mem_nil
  | x :: xs => by
    rw [List.mapM_cons]
    refine (h x).bind fun b hb => (ensures_mapM h xs).bind fun bs hbs => ?_
    exact ensures_pure (List.forall_mem_cons.2 ⟨hb, hbs⟩)

theorem ensures_defineVariable (v : Variable) : Ensures (defineVariable v) fun _ => True := by
  intro c hc
  refine ⟨?_, fun _ _ => trivial⟩
  obtain ⟨e, hrun⟩ | ⟨-, hrun⟩ := defineVariable_cases v c
  · rw [hrun]
    exact hc
  · rw [hrun]
    exact hc.declare v

theorem ensures_defineFunction (f : Function) : Ensures (defineFunction f) fun _ => True := by
  intro c hc
  refine ⟨?_, fun _ _ => trivial⟩
  obtain ⟨e, hrun⟩ | ⟨-, hrun⟩ := defineFunction_cases f c
  · rw [hrun]
    exact hc
  · rw [hrun]
    exact hc.declareFunction f

theorem Ensures.inScope (h : Ensures step P) : Ensures (inScope step) P := by
  intro c hc
  obtain ⟨hkeyed, hP⟩ := h (entered c) hc.entered
  exact ⟨Arena.All.exit hkeyed c.scopes.next, hP⟩

theorem Ensures.inMethod (h : Ensures step P) (result : TypeId) :
    Ensures (inMethod result step) P :=
  fun c hc => h { c with result := some result } hc

end Check

namespace Typing

open Check

variable {r : Registry} {c : Checker}

/-! ## Expressions -/

mutual

/-- All calls in an expression fit that has been checked. -/
theorem allFit_of_checkExpr (hr : r.Reachable) (hc : c.Keyed) : ∀ (e : Source.Expr)
    {t : Typed.Expr}, checkExpr r c e = .ok t → AllFit r t.applications
  | .literal value, t, ht => by
    simp only [checkExpr, bind_eq_ok, pure_eq_ok] at ht
    obtain ⟨type, -, rfl⟩ := ht
    unfold Typed.Expr.applications
    exact .nil
  | .group inner, t, ht => by
    unfold checkExpr at ht
    split at ht
    · cases ht
    · simp only [bind_eq_ok, pure_eq_ok] at ht
      obtain ⟨t', ht', rfl⟩ := ht
      unfold Typed.Expr.applications
      exact allFit_of_checkExpr hr hc inner ht'
  | .binary operator left right, t, ht => by
    simp only [checkExpr, bind_eq_ok, pure_eq_ok] at ht
    obtain ⟨left', hl, right', hr', type, -, rfl⟩ := ht
    unfold Typed.Expr.applications
    exact (allFit_of_checkExpr hr hc left hl).append (allFit_of_checkExpr hr hc right hr')
  | .var name, t, ht => by
    simp only [checkExpr, bind_eq_ok, pure_eq_ok] at ht
    obtain ⟨target, -, rfl⟩ := ht
    unfold Typed.Expr.applications
    exact .nil
  | .field receiver name, t, ht => by
    simp only [checkExpr, bind_eq_ok, pure_eq_ok] at ht
    obtain ⟨receiver', he, target, -, rfl⟩ := ht
    unfold Typed.Expr.applications
    exact allFit_of_checkExpr hr hc receiver he
  | .call name arguments, t, ht => by
    simp only [checkExpr, bind_eq_ok, pure_eq_ok, requireArguments_eq_ok] at ht
    obtain ⟨ts, hs, f, hf, -, hfit, rfl⟩ := ht
    have hexact := exact_of_lookupFunction hc hf
    unfold Typed.Expr.applications
    exact .cons (fun _ => hexact.fits_iff.2 hfit) (allFit_of_checkExprs hr hc arguments hs)
  | .method receiver name arguments, t, ht => by
    simp only [checkExpr, bind_eq_ok, pure_eq_ok, requireArguments_eq_ok] at ht
    obtain ⟨receiver', he, ts, hs, method, hm, -, hfit, rfl⟩ := ht
    unfold Typed.Expr.applications
    refine .cons (fun counted => ?_)
      ((allFit_of_checkExpr hr hc receiver he).append (allFit_of_checkExprs hr hc arguments hs))
    exact (exact_of_method hr hm counted).fits_iff.2 hfit

theorem allFit_of_checkExprs (hr : r.Reachable) (hc : c.Keyed) : ∀ (es : List Source.Expr)
    {ts : List Typed.Expr}, checkExprs r c es = .ok ts → AllFit r (Typed.exprsApplications ts)
  | [], ts, ht => by
    cases ht
    unfold Typed.exprsApplications
    exact .nil
  | e :: es, ts, ht => by
    simp only [checkExprs, bind_eq_ok, pure_eq_ok] at ht
    obtain ⟨t, ht, ts', hs, rfl⟩ := ht
    unfold Typed.exprsApplications
    exact (allFit_of_checkExpr hr hc e ht).append (allFit_of_checkExprs hr hc es hs)

end

theorem ensures_expression (hr : r.Reachable) (e : Source.Expr) :
    Ensures (expression r e) fun t => AllFit r t.applications :=
  ensures_get_bind_lift fun _ hc _ => allFit_of_checkExpr hr hc e

theorem ensures_checkCondition (hr : r.Reachable) (e : Source.Expr) :
    Ensures (checkCondition r e) fun t => AllFit r t.applications :=
  (ensures_expression hr e).bind fun _ ht => (ensures_lift _).bind fun _ _ => ensures_pure ht

/-! ## Statements -/

theorem ensures_requireBody (construct : String) (body : List Source.Stmt) :
    Ensures (requireBody construct body) fun _ => True :=
  ensures_of_keeps (keeps_requireBody construct body) fun _ _ _ _ => trivial

theorem ensures_checkDeclaration (hr : r.Reachable) (name : String) (type : Option String)
    (value : Option Source.Expr) : Ensures (checkDeclaration r name type value) fun p =>
      AllFit r (p.2.elim [] Typed.Expr.applications) := by
  unfold checkDeclaration
  refine (ensures_mapM_option (fun _ => ensures_lift _) type).bind fun declared _ => ?_
  refine (ensures_mapM_option (ensures_expression hr) value).bind fun value' hvalue => ?_
  have hfit : AllFit r (value'.elim [] Typed.Expr.applications) := by
    cases value' with
    | none => exact .nil
    | some t => exact hvalue t rfl
  have hdefine (t : TypeId) := (ensures_defineVariable (.plain name t)).bind fun _ _ =>
    ensures_pure (a := (Variable.plain name t, value'))
      (P := fun p => AllFit r (p.2.elim [] Typed.Expr.applications)) hfit
  rcases declared with _ | t <;> rcases value' with _ | v
  · exact ensures_throw _
  · exact hdefine v.type
  · exact hdefine t
  · exact (ensures_lift (r.requireAssignable t v.type)).bind fun _ _ => hdefine t

mutual

/-- All calls in a statement fit that has been checked, and functions stay where they belong. -/
theorem ensures_checkStmt (hr : r.Reachable) : ∀ s : Source.Stmt,
    Ensures (checkStmt r s) fun t => AllFit r t.applications
  | .expression e => by
    unfold checkStmt
    split
    · exact ensures_throw _
    · refine (ensures_expression hr e).bind fun t ht => ensures_pure ?_
      unfold Typed.Stmt.applications
      exact ht
  | .declaration name type value => by
    unfold checkStmt
    refine (ensures_checkDeclaration hr name type value).bind fun p hp => ensures_pure ?_
    unfold Typed.Stmt.applications
    exact hp
  | .assignment target value => by
    unfold checkStmt
    split
    · exact ensures_throw _
    · refine (ensures_expression hr target).bind fun target' htarget => ?_
      refine (ensures_expression hr value).bind fun value' hvalue => ?_
      refine (ensures_lift _).bind fun _ _ => ensures_pure ?_
      unfold Typed.Stmt.applications
      exact htarget.append hvalue
  | .conditional condition thenBody elseBody => by
    unfold checkStmt
    refine (ensures_checkCondition hr condition).bind fun t ht => ?_
    refine (ensures_requireBody _ _).bind fun _ _ => ?_
    refine (ensures_checkBlock hr thenBody).inScope.bind fun thenBody' hthen => ?_
    refine (ensures_checkBlock hr elseBody).inScope.bind fun elseBody' helse => ensures_pure ?_
    unfold Typed.Stmt.applications
    exact ht.append (hthen.append helse)
  | .each name items body => by
    unfold checkStmt
    refine (ensures_expression hr items).bind fun t ht => ?_
    refine (ensures_lift _).bind fun _ _ => (ensures_requireBody _ _).bind fun _ _ => ?_
    have hbody := (ensures_defineVariable (.plain name .integer)).bind fun _ _ =>
      ensures_checkBlock hr body
    refine hbody.inScope.bind fun body' hb => ensures_pure ?_
    unfold Typed.Stmt.applications
    exact ht.append hb
  | .loop condition body => by
    unfold checkStmt
    refine (ensures_checkCondition hr condition).bind fun t ht => ?_
    refine (ensures_checkBlock hr body).inScope.bind fun body' hb => ensures_pure ?_
    unfold Typed.Stmt.applications
    exact ht.append hb
  | .ret value => by
    unfold checkStmt
    refine ensures_get_bind fun c => ?_
    cases c.result with
    | none => exact ensures_throw _
    | some expected =>
      refine (ensures_expression hr value).bind fun t ht => ?_
      split
      · refine ensures_pure ?_
        unfold Typed.Stmt.applications
        exact ht
      · exact ensures_throw _

theorem ensures_checkBlock (hr : r.Reachable) : ∀ ss : List Source.Stmt,
    Ensures (checkBlock r ss) fun ts => AllFit r (Typed.blockApplications ts)
  | [] => by
    rw [checkBlock]
    refine ensures_pure ?_
    unfold Typed.blockApplications
    exact .nil
  | s :: ss => by
    rw [checkBlock]
    refine (ensures_checkStmt hr s).bind fun t ht => ?_
    refine (ensures_checkBlock hr ss).bind fun ts hts => ensures_pure ?_
    unfold Typed.blockApplications
    exact ht.append hts

end

/-! ## Programs -/

theorem ensures_checkField (hr : r.Reachable) (field : Source.Field) :
    Ensures (checkField r field) fun t => AllFit r t.applications :=
  (ensures_checkDeclaration hr field.name field.type field.value).bind fun _ hp => ensures_pure hp

theorem ensures_defineParameters : ∀ (names : List String) (types : List TypeId),
    Ensures (defineParameters names types) fun _ => True
  | [], _ | _ :: _, [] => ensures_pure trivial
  | name :: names, type :: types =>
    (ensures_defineVariable (.plain name type)).bind fun _ _ => ensures_defineParameters names types

/-- There is a name for each parameter of a method that has been checked, and all calls in its body
fit. -/
theorem ensures_checkMethod (hr : r.Reachable) (method : Source.Method) :
    Ensures (checkMethod r method) fun t =>
      t.parameters.length = t.function.parameters.length ∧ AllFit r t.applications := by
  unfold checkMethod
  split
  · exact ensures_throw _
  rename_i hl
  have htypes : Ensures (method.types.mapM fun name => (liftM (r.typeNamed name) : Check TypeId))
      fun types => method.types.length = types.length := by
    refine ensures_of_keeps (keeps_mapM (fun _ => keeps_lift _) _) fun c types _ hrun => ?_
    obtain ⟨c', hgives⟩ := run_eq_ok.1 hrun
    exact ((gives_typesNamed _).1 hgives).1.length_eq
  refine htypes.bind fun types hlength => (ensures_lift _).bind fun result _ => ?_
  refine (ensures_defineFunction _).bind fun _ _ => ?_
  have hbody := (ensures_defineParameters method.parameters types).bind fun _ _ =>
    ensures_checkBlock hr method.body
  refine (hbody.inScope.inMethod result).bind fun body hb => ensures_pure ⟨?_, hb⟩
  exact (not_not.1 hl).trans hlength

theorem ensures_checkProgram (hr : r.Reachable) (p : Source.Program) :
    Ensures (checkProgram r p) fun t =>
      (∀ method ∈ t.methods, method.parameters.length = method.function.parameters.length) ∧
        AllFit r t.applications := by
  unfold checkProgram
  split
  · exact ensures_throw _
  refine (ensures_mapM (ensures_checkField hr) p.fields).bind fun fields hfields => ?_
  refine (ensures_mapM (ensures_checkMethod hr) p.methods).bind fun methods hmethods => ?_
  refine ensures_pure ⟨fun method hm => (hmethods method hm).1, .append ?_ ?_⟩
  · exact List.forall_mem_flatMap.2 hfields
  · exact List.forall_mem_flatMap.2 fun method hm => (hmethods method hm).2

end Typing

end TypedImp
