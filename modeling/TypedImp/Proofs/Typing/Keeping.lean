import TypedImp.Proofs.Typing.Program

/-!
# What a check leaves behind

A check that fails still leaves a state. Whatever its outcome, it stands where it stood before, and
no scope but the current one has changed (`Checker.Kept`). Expressions change nothing, a declaration
adds its variable if it succeeds, and a method is added before its body is checked, so it stays if
only the body fails (`checks_keep_state`).

Every scope that a check enters is left on both exits, so all that statements do there is declare
variables of their own (`Check.Declares.inScope`).
-/

namespace TypedImp

namespace Checker

/-- What no check changes. -/
structure Kept (c c' : Checker) : Prop where
  current : c'.current = c.current
  result : c'.result = c.result
  size : c'.scopes.size = c.scopes.size
  others : ∀ s, s ≠ c.current → c'.scopes.get? s = c.scopes.get? s

/-- The current scope is live and has no such variable. -/
def Free (c : Checker) (name : String) : Prop :=
  ∃ scope, c.scopes.get? c.current = some scope ∧ scope.vars.get? name = none

/-- The current scope is live and has no such function. -/
def FreeFunction (c : Checker) (name : String) (arity : Nat) : Prop :=
  ∃ scope, c.scopes.get? c.current = some scope ∧ scope.funs.get? (name, arity) = none

variable {c c' c'' : Checker}

theorem Kept.refl (c : Checker) : c.Kept c :=
  ⟨rfl, rfl, rfl, fun _ _ => rfl⟩

theorem Kept.trans (h : c.Kept c') (h' : c'.Kept c'') : c.Kept c'' where
  current := h'.current.trans h.current
  result := h'.result.trans h.result
  size := h'.size.trans h.size
  others s hs := (h'.others s (h.current ▸ hs)).trans (h.others s hs)

theorem kept_modify (c : Checker) (f : Scope Variable Function → Scope Variable Function) :
    c.Kept { c with scopes := c.scopes.modify c.current f } where
  current := rfl
  result := rfl
  size := Arena.size_modify ..
  others s hs := by rw [Arena.get?_modify, if_neg hs]

theorem kept_declareAll : ∀ (vs : List Variable) (c : Checker), c.Kept (c.declareAll vs)
  | [], c => .refl c
  | v :: vs, c => (c.kept_modify _).trans (kept_declareAll vs (c.declare v))

theorem kept_declareFunction (c : Checker) (f : Function) : c.Kept (c.declareFunction f) :=
  c.kept_modify _

/-- Functions are not variables. -/
theorem vars_declareFunction (c : Checker) (f : Function) (s : ScopeId) :
    ((c.declareFunction f).scopes.get? s).map (·.vars) = (c.scopes.get? s).map (·.vars) := by
  rw [declareFunction, Arena.bindFunction, Arena.get?_modify]
  split_ifs
  · rw [Option.map_map]
    rfl
  · rfl

end Checker

/-! ## What steps leave -/

/-- The variable that a statement declares in the scope that it stands in. -/
def Source.Stmt.declaredName : Stmt → Option String
  | declaration name _ _ => some name
  | _ => none

/-- How a check ends that declares at most one variable. It leaves the state in which it began, with
what it declares if it succeeds. -/
inductive Leaves {α : Type} (declared : α → Option Variable) (name : Option String) (c : Checker) :
    Except Error α × Checker → Prop
  | failed (e : Error) : Leaves declared name c (.error e, c)
  | gave (a : α) (named : (declared a).map (·.name) = name) (free : ∀ n ∈ name, c.Free n) :
      Leaves declared name c (.ok a, c.declareAll (declared a).toList)

theorem Leaves.kept {α : Type} {declared : α → Option Variable} {name : Option String}
    {c : Checker} {o : Except Error α × Checker} (h : Leaves declared name c o) :
    c.Kept o.2 := by
  cases h with
  | failed e => exact .refl c
  | gave a _ _ => exact c.kept_declareAll _

namespace Check

variable {α β : Type} {step : Check α} {next : α → Check β} {c c' : Checker}

/-- The step leaves the state as it was, whatever its outcome. -/
def Keeps (step : Check α) : Prop :=
  ∀ c, (step.run c).2 = c

/-- The step declares variables in the current scope, if anything, whatever its outcome. -/
def Declares (step : Check α) : Prop :=
  ∀ c, ∃ vs, (step.run c).2 = c.declareAll vs

theorem run_bind (step : Check α) (next : α → Check β) (c : Checker) :
    (step >>= next).run c =
      match step.run c with
      | (.ok a, c') => (next a).run c'
      | (.error e, c') => (.error e, c') := by
  show (ExceptT.bindCont next (step.run c).1 : StateM Checker (Except Error β)) (step.run c).2 = _
  rcases step.run c with ⟨_ | a, c'⟩ <;> rfl

/-- What is left after two steps, of which the first one keeps the state. -/
theorem Keeps.run_bind (h : Keeps step) {P : Except Error β × Checker → Prop}
    (failed : ∀ e, step.run c = (.error e, c) → P (.error e, c))
    (gave : ∀ a, step.run c = (.ok a, c) → P ((next a).run c)) : P ((step >>= next).run c) := by
  have hc := h c
  rw [Check.run_bind]
  rcases hstep : step.run c with ⟨e | a, c'⟩
  all_goals
    rw [hstep] at hc
    cases hc
  · exact failed e hstep
  · exact gave a hstep

theorem Keeps.leaves {declared : β → Option Variable} {name : Option String} (h : Keeps step)
    (hnext : ∀ a, Leaves declared name c ((next a).run c)) :
    Leaves declared name c ((step >>= next).run c) :=
  h.run_bind (fun e _ => .failed e) fun a _ => hnext a

theorem Keeps.declares (h : Keeps step) : Declares step :=
  fun c => ⟨[], h c⟩

theorem keeps_pure (a : α) : Keeps (pure a) :=
  fun _ => rfl

theorem keeps_throw (e : Error) : Keeps (throw e : Check α) :=
  fun _ => rfl

theorem keeps_lift (o : Except Error α) : Keeps (liftM o) := by
  intro c
  cases o <;> rfl

theorem keeps_get : Keeps get :=
  fun _ => rfl

theorem Keeps.bind (h : Keeps step) (hnext : ∀ a, Keeps (next a)) : Keeps (step >>= next) :=
  fun c => h.run_bind (P := fun o => o.2 = c) (fun _ _ => rfl) fun a _ => hnext a c

theorem keeps_mapM_option {f : α → Check β} (h : ∀ a, Keeps (f a)) :
    ∀ x : Option α, Keeps (x.mapM f)
  | none => keeps_pure _
  | some a => by
    change Keeps (some <$> f a)
    rw [← bind_pure_comp]
    exact (h a).bind fun b => keeps_pure _

theorem keeps_mapM {f : α → Check β} (h : ∀ a, Keeps (f a)) : ∀ xs : List α, Keeps (xs.mapM f)
  | [] => by
    rw [List.mapM_nil]
    exact keeps_pure _
  | x :: xs => by
    rw [List.mapM_cons]
    exact (h x).bind fun _ => (keeps_mapM h xs).bind fun _ => keeps_pure _

theorem Declares.bind (h : Declares step) (hnext : ∀ a, Declares (next a)) :
    Declares (step >>= next) := by
  intro c
  obtain ⟨vs, hvs⟩ := h c
  rw [Check.run_bind]
  rcases hstep : step.run c with ⟨e | a, c'⟩
  all_goals
    obtain rfl : c' = c.declareAll vs := by
      rw [hstep] at hvs
      exact hvs
  · exact ⟨vs, rfl⟩
  · obtain ⟨ws, hws⟩ := hnext a (c.declareAll vs)
    exact ⟨vs ++ ws, by rw [Checker.declareAll_append, ← hws]⟩

/-- A new scope takes all that is declared in it. -/
theorem Declares.inScope (h : Declares step) : Keeps (inScope step) := by
  intro c
  obtain ⟨vs, hvs⟩ := h (entered c)
  change { (step.run (entered c)).2 with
    scopes := (step.run (entered c)).2.scopes.exit c.scopes.next, current := c.current } = c
  rw [hvs]
  exact c.leave_declareAll vs

theorem Keeps.inMethod (h : Keeps step) (result : TypeId) : Keeps (inMethod result step) := by
  intro c
  change { (step.run { c with result := some result }).2 with result := c.result } = c
  rw [h]

/-! ## Definitions -/

theorem run_defineVariable (v : Variable) (c : Checker) : (defineVariable v).run c =
    match c.scopes.defineVariable c.current v.name v with
    | .ok scopes => (.ok (), { c with scopes })
    | .error e => (.error e, c) := by
  change ((liftM (c.scopes.defineVariable c.current v.name v) : Check _) >>=
    fun scopes => set { c with scopes }).run c = _
  cases c.scopes.defineVariable c.current v.name v <;> rfl

theorem run_defineFunction (f : Function) (c : Checker) : (defineFunction f).run c =
    match c.scopes.defineFunction c.current f.name f.arity f with
    | .ok scopes => (.ok (), { c with scopes })
    | .error e => (.error e, c) := by
  change ((liftM (c.scopes.defineFunction c.current f.name f.arity f) : Check _) >>=
    fun scopes => set { c with scopes }).run c = _
  cases c.scopes.defineFunction c.current f.name f.arity f <;> rfl

/-- A variable is added to the current scope if the scope is free for it; else nothing changes. -/
theorem defineVariable_cases (v : Variable) (c : Checker) :
    (∃ e, (defineVariable v).run c = (.error e, c)) ∨
      c.Free v.name ∧ (defineVariable v).run c = (.ok (), c.declare v) := by
  rw [run_defineVariable]
  cases hdefine : c.scopes.defineVariable c.current v.name v with
  | error e => exact .inl ⟨e, rfl⟩
  | ok scopes =>
    obtain ⟨hfree, rfl⟩ := Arena.defineVariable_eq_ok.1 hdefine
    exact .inr ⟨hfree, rfl⟩

theorem defineFunction_cases (f : Function) (c : Checker) :
    (∃ e, (defineFunction f).run c = (.error e, c)) ∨
      c.FreeFunction f.name f.arity ∧ (defineFunction f).run c = (.ok (), c.declareFunction f) := by
  rw [run_defineFunction]
  cases hdefine : c.scopes.defineFunction c.current f.name f.arity f with
  | error e => exact .inl ⟨e, rfl⟩
  | ok scopes =>
    obtain ⟨hfree, rfl⟩ := Arena.defineFunction_eq_ok.1 hdefine
    exact .inr ⟨hfree, rfl⟩

theorem declares_defineVariable (v : Variable) : Declares (defineVariable v) := by
  intro c
  obtain ⟨e, hrun⟩ | ⟨-, hrun⟩ := defineVariable_cases v c
  · exact ⟨[], by rw [hrun]; rfl⟩
  · exact ⟨[v], by rw [hrun]; rfl⟩

end Check

namespace Typing

open Check

variable (r : Registry) {c : Checker}

/-! ## Statements -/

theorem keeps_expression (e : Source.Expr) : Keeps (expression r e) :=
  keeps_get.bind fun _ => keeps_lift _

theorem keeps_checkCondition (e : Source.Expr) : Keeps (checkCondition r e) :=
  (keeps_expression r e).bind fun _ => (keeps_lift _).bind fun _ => keeps_pure _

theorem keeps_requireBody (construct : String) (body : List Source.Stmt) :
    Keeps (requireBody construct body) := by
  unfold requireBody
  split
  · exact keeps_throw _
  · exact keeps_pure _

/-- A declaration adds its variable once nothing can fail any more. -/
theorem leaves_checkDeclaration (name : String) (type : Option String)
    (value : Option Source.Expr) (c : Checker) :
    Leaves (fun p => some p.1) (some name) c ((checkDeclaration r name type value).run c) := by
  unfold checkDeclaration
  refine (keeps_mapM_option (fun _ => keeps_lift _) type).leaves fun declared => ?_
  refine (keeps_mapM_option (keeps_expression r) value).leaves fun value' => ?_
  -- whichever way the type is told, the last step is to add the variable
  have hdefine (t : TypeId) : Leaves (fun p => some p.1) (some name) c
      ((do Check.defineVariable (.plain name t); return (Variable.plain name t, value') :
        Check (Variable × Option Typed.Expr)).run c) := by
    rw [Check.run_bind]
    obtain ⟨e, hrun⟩ | ⟨hfree, hrun⟩ := defineVariable_cases (.plain name t) c
    · rw [hrun]
      exact .failed e
    · rw [hrun]
      refine .gave (Variable.plain name t, value') rfl fun n hn => ?_
      cases hn
      exact hfree
  rcases declared with _ | t <;> rcases value' with _ | v
  · exact .failed _
  · exact hdefine v.type
  · exact hdefine t
  · exact (keeps_lift (r.requireAssignable t v.type)).leaves fun _ => hdefine t

theorem Leaves.declares {α : Type} {declared : α → Option Variable} {name : Option String}
    {step : Check α} (h : ∀ c, Leaves declared name c (step.run c)) : Declares step := by
  intro c
  have hc := h c
  rcases hstep : step.run c with ⟨e | a, c'⟩
  all_goals
    rw [hstep] at hc
    cases hc
  · exact ⟨[], rfl⟩
  · exact ⟨_, rfl⟩

/-- The result of a declaration may be wrapped. -/
theorem leaves_wrapped {α : Type} (wrap : Variable → Option Typed.Expr → α)
    {declared : α → Option Variable} (hwrap : ∀ v value, declared (wrap v value) = some v)
    (name : String) (type : Option String) (value : Option Source.Expr) (c : Checker) :
    Leaves declared (some name) c ((do
      let (target, value) ← checkDeclaration r name type value
      return wrap target value : Check α).run c) := by
  rw [Check.run_bind]
  have hc := leaves_checkDeclaration r name type value c
  generalize (checkDeclaration r name type value).run c = o at hc
  cases hc with
  | failed e => exact .failed e
  | gave a named free =>
    have hgave : Leaves declared (some name) c _ :=
      .gave (wrap a.1 a.2) (by rw [hwrap]; exact named) free
    rw [hwrap] at hgave
    exact hgave

-- Of a body it is enough to know that it declares variables: its scope is left, and they with it.
mutual

theorem leaves_checkStmt : ∀ (s : Source.Stmt) (c : Checker),
    Leaves Typed.Stmt.declared s.declaredName c ((checkStmt r s).run c)
  | .expression e, c => by
    unfold checkStmt
    split
    · exact .failed _
    · exact (keeps_expression r e).leaves fun _ => .gave _ rfl nofun
  | .declaration name type value, c => by
    unfold checkStmt
    exact leaves_wrapped r Typed.Stmt.declaration (fun _ _ => rfl) name type value c
  | .assignment target value, c => by
    unfold checkStmt
    split
    · exact .failed _
    · refine (keeps_expression r target).leaves fun target' => ?_
      refine (keeps_expression r value).leaves fun value' => ?_
      exact (keeps_lift _).leaves fun _ => .gave _ rfl nofun
  | .conditional condition thenBody elseBody, c => by
    unfold checkStmt
    refine (keeps_checkCondition r condition).leaves fun _ => ?_
    refine (keeps_requireBody _ _).leaves fun _ => ?_
    refine (declares_checkBlock thenBody).inScope.leaves fun _ => ?_
    refine (declares_checkBlock elseBody).inScope.leaves fun _ => ?_
    exact .gave _ rfl nofun
  | .each name items body, c => by
    unfold checkStmt
    refine (keeps_expression r items).leaves fun _ => ?_
    refine (keeps_lift _).leaves fun _ => ?_
    refine (keeps_requireBody _ _).leaves fun _ => ?_
    have hbody := (declares_defineVariable (.plain name .integer)).bind fun _ =>
      declares_checkBlock body
    refine hbody.inScope.leaves fun _ => ?_
    exact .gave _ rfl nofun
  | .loop condition body, c => by
    unfold checkStmt
    refine (keeps_checkCondition r condition).leaves fun _ => ?_
    refine (declares_checkBlock body).inScope.leaves fun _ => ?_
    exact .gave _ rfl nofun
  | .ret value, c => by
    unfold checkStmt
    refine keeps_get.leaves fun c₁ => ?_
    cases c₁.result with
    | none => exact .failed _
    | some expected =>
      refine (keeps_expression r value).leaves fun value' => ?_
      split
      · exact .gave _ rfl nofun
      · exact .failed _

theorem declares_checkBlock : ∀ ss : List Source.Stmt, Declares (checkBlock r ss)
  | [] => by
    rw [checkBlock]
    exact (keeps_pure _).declares
  | s :: ss => by
    rw [checkBlock]
    refine (Leaves.declares (leaves_checkStmt s)).bind fun _ => ?_
    exact (declares_checkBlock ss).bind fun _ => (keeps_pure _).declares

end

/-! ## Methods -/

/-- Why a method's body fails: a parameter has the name of an earlier one, or the statements fail
where the parameters are known. -/
inductive BodyError (method : Source.Method) (types : List TypeId) (c : Checker) : Error → Prop
  | parameter {earlier later : List String} {name : String}
      (names : method.parameters = earlier ++ name :: later) (twice : name ∈ earlier) :
      BodyError method types c (.duplicateVariable name)
  | statements {e : Error} {c' : Checker} (distinct : method.parameters.Nodup)
      (fails : (checkBlock r method.body).run
        (c.declareAll (List.zipWith .plain method.parameters types)) = (.error e, c')) :
      BodyError method types c e

/-- How the check of a method ends. It adds the method's function or nothing, and a function that
is added though the check fails is not to blame. -/
inductive MethodLeaves (method : Source.Method) (c : Checker) :
    Except Error Typed.Method × Checker → Prop
  | refused (e : Error) : MethodLeaves method c (.error e, c)
  | failed {f : Function} {e : Error} (name : f.name = method.name)
      (arity : f.arity = method.types.length) (free : c.FreeFunction f.name f.arity)
      (body : BodyError r method f.parameters
        (entered { c.declareFunction f with result := some f.result }) e) :
      MethodLeaves method c (.error e, c.declareFunction f)
  | gave (t : Typed.Method) (name : t.function.name = method.name)
      (arity : t.function.arity = method.types.length)
      (free : c.FreeFunction t.function.name t.function.arity) :
      MethodLeaves method c (.ok t, c.declareFunction t.function)

/-- The current scope is live and has exactly these variables. -/
def Holds (c : Checker) (names : List String) : Prop :=
  ∃ scope, c.scopes.get? c.current = some scope ∧ ∀ name, scope.vars.get? name = none ↔ name ∉ names

theorem Holds.declare {names : List String} (h : Holds c names) (v : Variable) :
    Holds (c.declare v) (names ++ [v.name]) := by
  obtain ⟨scope, live, hnames⟩ := h
  refine ⟨scope.bindVariable v.name v, ?_, fun name => ?_⟩
  · refine (Arena.get?_modify ..).trans ((if_pos rfl).trans ?_)
    exact congrArg (Option.map _) live
  · rw [Scope.bindVariable, Table.get?_insert]
    split_ifs with heq
    · simp [heq]
    · simp [hnames, heq]

theorem Holds.run_defineVariable {names : List String} (h : Holds c names) (v : Variable) :
    (defineVariable v).run c =
      if v.name ∈ names then (.error (.duplicateVariable v.name), c)
      else (.ok (), c.declare v) := by
  obtain ⟨scope, live, hnames⟩ := h
  rw [Check.run_defineVariable, Arena.defineVariable, live]
  by_cases hmem : v.name ∈ names
  · have hbound : (scope.vars.get? v.name).isSome :=
      Option.isSome_iff_ne_none.2 fun hnone => (hnames _).1 hnone hmem
    simp only [hbound, if_pos hmem, ↓reduceIte]
  · simp only [(hnames _).2 hmem, if_neg hmem, Option.isSome_none, Bool.false_eq_true, ↓reduceIte]
    rfl

theorem MethodLeaves.kept {r : Registry} {method : Source.Method}
    {o : Except Error Typed.Method × Checker} (h : MethodLeaves r method c o) : c.Kept o.2 := by
  cases h with
  | refused e => exact .refl c
  | failed _ _ _ _ => exact c.kept_declareFunction _
  | gave t _ _ _ => exact c.kept_declareFunction _

theorem MethodLeaves.vars {r : Registry} {method : Source.Method}
    {o : Except Error Typed.Method × Checker} (h : MethodLeaves r method c o) (s : ScopeId) :
    (o.2.scopes.get? s).map (·.vars) = (c.scopes.get? s).map (·.vars) := by
  cases h with
  | refused e => rfl
  | failed _ _ _ _ => exact c.vars_declareFunction _ s
  | gave t _ _ _ => exact c.vars_declareFunction _ s

/-- A method is known though its body fails. -/
example : ((checkMethod .builtin ⟨"f", [], [], none, [.ret (.literal (.integer 1))]⟩).run
    .initial).2.lookupFunction "f" 0 = .ok (.plain "f" [] .nil) := by
  rfl

end Typing

end TypedImp
