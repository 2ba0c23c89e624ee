import TypedImp.Proofs.Machine.Bare
import TypedImp.Proofs.Machine.Step
import TypedImp.Proofs.Scope.Relabel

/-!
# Annotations do not matter

What a run comes to does not depend on the annotations of the program, nor on those of the methods
that the machine has stored (`annotations_irrelevant`). The run of a program corresponds step by
step to the run with bare annotations in the machine with bare annotations (`bared_run`): what is
called is found by its name and the number of its arguments, and members by the type that a value
has when the program runs.
-/

namespace TypedImp

variable {α β : Type}

/-- The callable with bare annotations. -/
def Callable.bare : Callable → Callable
  | body b => .body b
  | print => .print
  | method m closure => .method m.erase.bare closure

namespace Machine

/-- The machine with bare annotations in all methods that it has stored. -/
def bare (m : Machine) : Machine :=
  { m with scopes := m.scopes.relabel Callable.bare }

variable (m m' : Machine) (r : Registry) (value : Value) (name : String) (arity : Nat)

/-! ## What is found -/

theorem lookupVariable_bare : m.bare.lookupVariable name = m.lookupVariable name :=
  Arena.lookupVariable_relabel ..

theorem lookupFunction_bare :
    m.bare.lookupFunction name arity = (m.lookupFunction name arity).map Callable.bare :=
  Arena.lookupFunction_relabel ..

theorem readField_bare : m.bare.readField r value name = m.readField r value name := by
  simp only [readField, bare, Arena.lookupVariable_relabel]

theorem resolveMethod_bare : m.bare.resolveMethod r value name arity =
    (m.resolveMethod r value name arity).map Callable.bare := by
  have hbodies (found : Except Error MethodMember) {next : MethodMember → Except Error Callable}
      (hnext : ∀ method, next method = (next method).map Callable.bare) :
      found >>= next = (found >>= next).map Callable.bare := by
    cases found with
    | error e => rfl
    | ok method => exact hnext method
  unfold resolveMethod
  cases value.members with
  | none => exact hbodies _ fun method => by cases method.body <;> rfl
  | some s =>
    simp only [Option.map_some, bare, Arena.lookupFunction_relabel]
    cases m.scopes.lookupFunction s name (Function.withReceiver arity) with
    | error e => exact hbodies _ fun method => by cases method.body <;> rfl
    | ok callable => rfl

/-! ## What is changed -/

theorem defineVariable_bare :
    m.bare.defineVariable name value = (m.defineVariable name value).map bare := by
  simp only [defineVariable, bare, Arena.defineVariable_relabel]
  cases m.scopes.defineVariable root name value <;> rfl

theorem defineFunction_bare (callable : Callable) :
    m.bare.defineFunction name arity callable.bare =
      (m.defineFunction name arity callable).map bare := by
  simp only [defineFunction, bare, Arena.defineFunction_relabel]
  cases m.scopes.defineFunction root name arity callable <;> rfl

theorem entered_bare (p : ScopeId) : Exec.entered m.bare p = (Exec.entered m p).bare := by
  simp only [Exec.entered, bare, Arena.relabel_enter, Arena.next_relabel]

theorem left_bare : Exec.left m.bare m'.bare = (Exec.left m m').bare := by
  simp only [Exec.left, bare, Arena.relabel_exit, Arena.next_relabel]

end Machine

open Machine

namespace Exec

/-- What the first step comes to in a machine, the second one comes to in the machine with bare
annotations. -/
def Bared (step step' : Exec α) : Prop :=
  ∀ m, step'.run m.bare = (step.run m).map fun p => (p.1, p.2.bare)

/-- The step does not depend on annotations that are stored. -/
abbrev Blind (step : Exec α) : Prop :=
  Bared step step

theorem bared_exhausted : Blind (exhausted : Exec α) :=
  fun _ => rfl

theorem bared_pure (a : α) : Blind (pure a) :=
  fun _ => rfl

theorem bared_throw (e : Error) : Blind (throw e : Exec α) :=
  fun _ => rfl

theorem bared_lift (o : Except Error α) : Blind (liftM o) := by
  intro m
  rw [run_lift, run_lift]
  rfl

theorem bared_bind {step step' : Exec α} {next next' : α → Exec β} (h : Bared step step')
    (hnext : ∀ a, Bared (next a) (next' a)) : Bared (step >>= next) (step' >>= next') := by
  intro m
  rw [run_bind, run_bind, h m]
  rcases step.run m with _ | ⟨_ | a, m₁⟩
  · rfl
  · rfl
  · exact hnext a m₁

theorem bared_get {next next' : Machine → Exec β}
    (h : ∀ m, (next' m.bare).run m.bare = ((next m).run m).map fun p => (p.1, p.2.bare)) :
    Bared (get >>= next) (get >>= next') :=
  h

theorem bared_find {find : Machine → Except Error Callable}
    (hfind : ∀ m, find m.bare = (find m).map Callable.bare) {next : Callable → Exec β}
    (hbare : ∀ c, next c.bare = next c) (hnext : ∀ c, Blind (next c)) :
    Blind (do next (← find (← get))) := by
  intro m
  rw [run_get_bind, run_get_bind, run_lift_bind, run_lift_bind, hfind]
  cases find m with
  | error e => rfl
  | ok c => exact (congrArg (·.run m.bare) (hbare c)).trans (hnext c m)

theorem bared_change {change change' : Machine → Except Error Machine}
    (h : ∀ m, change' m.bare = (change m).map bare) {next next' : Exec β}
    (hnext : Bared next next') :
    Bared (do set (← change (← get)); next) (do set (← change' (← get)); next') := by
  intro m
  rw [run_get_bind, run_get_bind, run_lift_bind, run_lift_bind, h]
  cases change m with
  | error e => rfl
  | ok m₁ => exact hnext m₁

theorem bared_inScope (p : ScopeId) {step step' : Exec α} (h : Bared step step') :
    Bared (inScope p step) (inScope p step') := by
  intro m
  rw [run_inScope, run_inScope, entered_bare, h, Option.map_map, Option.map_map]
  exact congrArg (Option.map · _) (funext fun q => congrArg (q.1, ·) (left_bare m q.2))

theorem bared_inBlock {step : Exec α} (h : Blind step) : Blind (inBlock step) :=
  bared_get fun m => bared_inScope m.current h m

theorem bared_defineVariable (name : String) (value : Value) :
    Blind (defineVariable name value) := by
  refine bared_get fun m => ?_
  rw [run_lift_bind, run_lift_bind, bare, Arena.defineVariable_relabel]
  cases m.scopes.defineVariable m.current name value <;> rfl

theorem bared_setVariable (s : ScopeId) (name : String) (value : Value) :
    Blind (setVariable s name value) := by
  refine bared_get fun m => ?_
  rw [run_lift_bind, run_lift_bind, bare, Arena.setVariable_relabel]
  cases m.scopes.setVariable s name value <;> rfl

theorem bared_print (values : List Value) : Blind (print values) := by
  cases values with
  | nil => exact bared_throw _
  | cons value values =>
    refine bared_get fun m => ?_
    dsimp only [bare]
    cases m.sink.refuse m.output (value.toText ++ "\n") <;> rfl

theorem bared_forEach {step : Value → Exec Flow} (h : ∀ item, Blind (step item)) :
    ∀ items : List Value, Blind (forEach step items)
  | [] => bared_pure _
  | item :: items => by
    unfold forEach
    refine bared_bind (h item) fun flow => ?_
    cases flow with
    | normal => exact bared_forEach h items
    | returned value => exact bared_pure _

theorem bared_repeatWhile {condition : Exec Bool} {body : Exec Flow} (hc : Blind condition)
    (hb : Blind body) : ∀ rounds : Nat, Blind (repeatWhile condition body rounds)
  | 0 => bared_exhausted
  | rounds + 1 => by
    unfold repeatWhile
    refine bared_bind hc fun b => ?_
    cases b with
    | false => exact bared_pure _
    | true =>
      refine bared_bind hb fun flow => ?_
      cases flow with
      | normal => exact bared_repeatWhile hc hb rounds
      | returned value => exact bared_pure _

theorem bared_defineParameters : ∀ (names : List String) (values : List Value),
    Blind (defineParameters names values)
  | [], _ => bared_pure _
  | _ :: _, [] => bared_pure _
  | name :: names, value :: values =>
    bared_bind (bared_defineVariable name value) fun _ => bared_defineParameters names values

end Exec

open Exec

/-! ## Expressions and statements -/

/-- Methods are run alike whatever their annotations are and those of stored methods. -/
structure Context.Blind (x : Context) : Prop where
  call_bare (method : Typed.Method) (closure : ScopeId) (values : List Value) :
    x.call method.erase.bare closure values = x.call method closure values
  call (method : Typed.Method) (closure : ScopeId) (values : List Value) :
    (x.call method closure values).Blind

namespace Context.Blind

variable {x : Context}

theorem invoke_bare (hx : x.Blind) (callable : Callable) (values : List Value) :
    x.invoke callable.bare values = x.invoke callable values := by
  cases callable with
  | body _ | print => rfl
  | method method closure => exact hx.call_bare method closure values

theorem bared_invoke (hx : x.Blind) (callable : Callable) (values : List Value) :
    (x.invoke callable values).Blind := by
  cases callable with
  | body body => exact bared_lift _
  | print => exact bared_print values
  | method method closure => exact hx.call method closure values

mutual

theorem bared_evaluate (hx : x.Blind) : ∀ e : Typed.Expr, (x.evaluate e).Blind
  | .literal _ _ => by
    unfold evaluate
    exact bared_pure _
  | .group inner _ => by
    unfold evaluate
    exact hx.bared_evaluate inner
  | .binary (.connective operator) left right _ => by
    unfold evaluate
    refine bared_bind (hx.bared_evaluate left) fun _ => bared_bind (bared_lift _) fun _ => ?_
    split_ifs
    · exact bared_pure _
    · exact bared_bind (hx.bared_evaluate right) fun _ =>
        bared_bind (bared_lift _) fun _ => bared_pure _
  | .binary (.relation operator) left right _ => by
    unfold evaluate
    exact bared_bind (hx.bared_evaluate left) fun _ => bared_bind (hx.bared_evaluate right) fun _ =>
      bared_bind (bared_lift _) fun _ => bared_pure _
  | .binary (.arithmetic operator) left right _ => by
    unfold evaluate
    exact bared_bind (hx.bared_evaluate left) fun _ => bared_bind (hx.bared_evaluate right) fun _ =>
      bared_bind (bared_lift _) fun _ => bared_pure _
  | .var target _ => by
    unfold evaluate
    refine bared_get fun m => ?_
    rw [lookupVariable_bare]
    exact bared_lift _ m
  | .field receiver target _ => by
    unfold evaluate
    refine bared_bind (hx.bared_evaluate receiver) fun object => bared_get fun m => ?_
    rw [readField_bare]
    exact bared_lift _ m
  | .call function arguments _ => by
    unfold evaluate
    refine bared_bind (hx.bared_evaluateAll arguments) fun values => ?_
    exact bared_find (fun m => lookupFunction_bare m _ _) (fun c => hx.invoke_bare c values)
      fun c => hx.bared_invoke c values
  | .method receiver function arguments _ => by
    unfold evaluate
    refine bared_bind (hx.bared_evaluate receiver) fun object => ?_
    refine bared_bind (hx.bared_evaluateAll arguments) fun values => ?_
    exact bared_find (fun m => resolveMethod_bare m _ _ _ _) (fun c => hx.invoke_bare c _)
      fun c => hx.bared_invoke c _

theorem bared_evaluateAll (hx : x.Blind) : ∀ es : List Typed.Expr, (x.evaluateAll es).Blind
  | [] => by
    unfold evaluateAll
    exact bared_pure _
  | e :: es => by
    unfold evaluateAll
    exact bared_bind (hx.bared_evaluate e) fun _ => bared_bind (hx.bared_evaluateAll es) fun _ =>
      bared_pure _

end

theorem bared_initialValue (hx : x.Blind) (value : Option Typed.Expr) :
    (x.initialValue value).Blind := by
  cases value with
  | none => exact bared_pure _
  | some e => exact hx.bared_evaluate e

theorem bared_condition (hx : x.Blind) (e : Typed.Expr) : (x.condition e).Blind :=
  bared_bind (hx.bared_evaluate e) fun _ => bared_lift _

theorem bared_assign (hx : x.Blind) (value target : Typed.Expr) :
    (x.assign value target).Blind := by
  cases target with
  | var target _ =>
    refine bared_bind (hx.bared_evaluate value) fun v => bared_get fun m => ?_
    exact bared_setVariable m.current target.name v m
  | field receiver target _ =>
    exact bared_bind (hx.bared_evaluate receiver) fun _ =>
      bared_bind (hx.bared_evaluate value) fun _ =>
        bared_bind (bared_lift _) fun _ => bared_setVariable _ _ _
  | literal _ _ | group _ _ | binary _ _ _ _ | call _ _ _ | method _ _ _ _ =>
    exact bared_throw _

mutual

theorem bared_execute (hx : x.Blind) : ∀ s : Typed.Stmt, (x.execute s).Blind
  | .expression e => by
    unfold execute
    exact bared_bind (hx.bared_evaluate e) fun _ => bared_pure _
  | .declaration target value => by
    unfold execute
    exact bared_bind (hx.bared_initialValue value) fun _ =>
      bared_bind (bared_defineVariable _ _) fun _ => bared_pure _
  | .assignment target value => by
    unfold execute
    exact bared_bind (hx.bared_assign value target) fun _ => bared_pure _
  | .conditional condition thenBody elseBody => by
    unfold execute
    refine bared_bind (hx.bared_condition condition) fun _ => ?_
    split_ifs
    · exact bared_inBlock (hx.bared_executeBlock thenBody)
    · exact bared_inBlock (hx.bared_executeBlock elseBody)
  | .each target items body => by
    unfold execute
    refine bared_bind (hx.bared_evaluate items) fun _ => ?_
    split
    · exact bared_forEach (fun _ => bared_inBlock (bared_bind (bared_defineVariable _ _) fun _ =>
        hx.bared_executeBlock body)) _
    · exact bared_throw _
  | .loop condition body => by
    unfold execute
    exact bared_repeatWhile (hx.bared_condition condition)
      (bared_inBlock (hx.bared_executeBlock body)) _
  | .ret value => by
    unfold execute
    exact bared_bind (hx.bared_evaluate value) fun _ => bared_pure _

theorem bared_executeBlock (hx : x.Blind) : ∀ ss : List Typed.Stmt, (x.executeBlock ss).Blind
  | [] => by
    unfold executeBlock
    exact bared_pure _
  | s :: ss => by
    unfold executeBlock
    refine bared_bind (hx.bared_execute s) fun flow => ?_
    cases flow with
    | normal => exact hx.bared_executeBlock ss
    | returned value => exact bared_pure _

end

end Context.Blind

/-! ## Methods and programs -/

theorem blind_callMethod (r : Registry) (rounds : Nat) :
    ∀ depth : Nat, (⟨r, callMethod r rounds depth, rounds⟩ : Context).Blind
  | 0 => ⟨callMethod_bare r rounds 0, fun _ _ _ => bared_exhausted⟩
  | depth + 1 => by
    refine ⟨callMethod_bare r rounds (depth + 1), fun method closure values => ?_⟩
    simp only [callMethod]
    split_ifs
    · exact bared_throw _
    refine bared_inScope closure (bared_bind (bared_defineParameters _ _) fun _ => ?_)
    have hx := blind_callMethod r rounds depth
    refine bared_bind (hx.bared_executeBlock method.body) fun flow => ?_
    cases flow <;> exact bared_pure _

theorem blind_within (r : Registry) (budget : Budget) : (Context.within r budget).Blind :=
  blind_callMethod r budget.rounds budget.depth

namespace Context

variable {x : Context}

theorem bared_defineFields (hx : x.Blind) : ∀ fields : List Typed.Field,
    Bared (x.defineFields fields)
      (x.defineFields ((fields.map Typed.Field.erase).map Source.Field.bare))
  | [] => bared_pure _
  | field :: fields => by
    refine bared_bind (β := Unit) ?_ fun value =>
      bared_change (fun m => defineVariable_bare m value _) (bared_defineFields hx fields)
    change Bared (x.initialValue field.value)
      (x.initialValue ((field.value.map Typed.Expr.erase).map Source.Expr.bare))
    rw [initialValue_bare]
    exact hx.bared_initialValue field.value

theorem bared_defineMethods : ∀ methods : List Typed.Method,
    Bared (defineMethods methods)
      (defineMethods ((methods.map Typed.Method.erase).map Source.Method.bare))
  | [] => bared_pure _
  | method :: methods =>
    bared_change (fun m => defineFunction_bare m _ _ (.method method root))
      (bared_defineMethods methods)

/-- A program runs as it does with bare annotations. -/
theorem bared_run (hx : x.Blind) (program : Typed.Program) :
    Bared (x.run program) (x.run program.erase.bare) := by
  refine bared_bind (bared_defineFields hx program.fields) fun _ => ?_
  refine bared_bind (bared_defineMethods program.methods) fun _ => ?_
  exact bared_find (fun m => Arena.lookupFunction_relabel ..) (fun c => hx.invoke_bare c [])
    fun c => hx.bared_invoke c []

end Context

/-! ## Two programs -/

/-- Both runs use up the budget, or both come to the same outcome and have printed the same, in
machines that differ at most in the annotations of the methods that they have stored. -/
def SameEnd (ending ending' : Option (Except Error α × Machine)) : Prop :=
  Option.Rel (fun p p' => p.1 = p'.1 ∧ p.2.output = p'.2.output ∧ p.2.bare = p'.2.bare) ending
    ending'

/-- Steps that correspond to one step in machines with bare annotations come to the same. -/
theorem SameEnd.of_bared {step step' bare : Exec α} {m m' : Machine} (h : Bared step bare)
    (h' : Bared step' bare) (hm : m.bare = m'.bare) : SameEnd (step.run m) (step'.run m') := by
  have hends := h m
  rw [hm, h' m'] at hends
  generalize step.run m = ending, step'.run m' = ending' at hends
  rcases ending with _ | ⟨o, m₁⟩ <;> rcases ending' with _ | ⟨o', m₁'⟩
  · exact .none
  · cases hends
  · cases hends
  · obtain ⟨rfl, hbare⟩ := Prod.mk.inj (Option.some.inj hends)
    exact .some ⟨rfl, (congrArg Machine.output hbare.symm :), hbare.symm⟩

/-- Programs, statements and expressions that are the same but for their annotations run alike, in
machines that are the same but for the annotations of stored methods. In one machine, statements
and expressions even come to the same machine. -/
theorem annotations_irrelevant (r : Registry) (budget : Budget) {m m' : Machine}
    (hm : m.bare = m'.bare) :
    (∀ t t' : Typed.Program, t.erase = t'.erase →
      SameEnd ((run r budget t).run m) ((run r budget t').run m')) ∧
    (∀ s s' : Typed.Stmt, s.erase = s'.erase → execute r budget s = execute r budget s' ∧
      SameEnd ((execute r budget s).run m) ((execute r budget s').run m')) ∧
    ∀ e e' : Typed.Expr, e.erase = e'.erase → evaluate r budget e = evaluate r budget e' ∧
      SameEnd ((evaluate r budget e).run m) ((evaluate r budget e').run m') := by
  have hx := blind_within r budget
  refine ⟨fun t t' h => ?_, fun s s' h => ?_, fun e e' h => ?_⟩
  · exact .of_bared (Context.bared_run hx t) (h ▸ Context.bared_run hx t') hm
  · have hsame : execute r budget s = execute r budget s' := by
      rw [execute, ← Context.execute_bare, h, Context.execute_bare, execute]
    exact ⟨hsame, .of_bared (hx.bared_execute s) (hsame ▸ hx.bared_execute s) hm⟩
  · have hsame : evaluate r budget e = evaluate r budget e' := by
      rw [evaluate, ← Context.evaluate_bare, h, Context.evaluate_bare, evaluate]
    exact ⟨hsame, .of_bared (hx.bared_evaluate e) (hsame ▸ hx.bared_evaluate e) hm⟩

/-- A method of one parameter. All its types are `type` and all its spellings `target`. -/
def Typed.Method.twice (type : TypeId) (target : String) : Typed.Method :=
  ⟨⟨"twice", target, [type, type], type⟩, ["n"],
    [.ret (.binary (.arithmetic .add) (.var ⟨"n", target, type⟩ type)
      (.var ⟨"n", target, type⟩ type) type)]⟩

/-- A machine that has stored the method. -/
def Machine.twice (type : TypeId) (target : String) : Machine :=
  { initial with
    scopes := initial.scopes.bindFunction root "twice" 1 (.method (.twice type target) root) }

/-- A field and a call of the method. -/
def Typed.Program.doubling (type : TypeId) (target : String) : Typed.Program where
  fields := [⟨⟨"start", target, type⟩, some (.literal (.integer 21) type)⟩]
  methods :=
    [⟨⟨"main", target, [type], type⟩, [],
      [.expression (.call ⟨"print", target, [], type⟩
        [.call ⟨"twice", target, [], type⟩ [.var ⟨"start", target, type⟩ type] type] type),
       .ret (.var ⟨"start", target, type⟩ type)]⟩]

theorem annotations_irrelevant_doubling :
    (Machine.twice .integer "twice").bare = (Machine.twice ⟨50⟩ "").bare ∧
    (Typed.Program.doubling .integer "twice").erase = (Typed.Program.doubling ⟨50⟩ "").erase ∧
    SameEnd ((run .builtin ⟨2, 0⟩ (.doubling .integer "twice")).run (.twice .integer "twice"))
      ((run .builtin ⟨2, 0⟩ (.doubling ⟨50⟩ "")).run (.twice ⟨50⟩ "")) ∧
    ((run .builtin ⟨2, 0⟩ (.doubling ⟨50⟩ "")).run (.twice ⟨50⟩ "")).map
      (fun p => (p.1, p.2.output)) = some (.ok (.integer 21), "42\n") :=
  have hmethod : (Typed.Method.twice .integer "twice").erase =
      (Typed.Method.twice ⟨50⟩ "").erase := rfl
  have hbare : (Machine.twice .integer "twice").bare = (Machine.twice ⟨50⟩ "").bare := by
    simp only [Machine.twice, bare, Arena.relabel_bindFunction, Callable.bare, hmethod]
  have herase : (Typed.Program.doubling .integer "twice").erase =
      (Typed.Program.doubling ⟨50⟩ "").erase := rfl
  ⟨hbare, herase, (annotations_irrelevant .builtin ⟨2, 0⟩ hbare).1 _ _ herase, by rfl⟩

end TypedImp
