import TypedImp.Proofs.Machine.Step
import TypedImp.Proofs.Machine.Stock

/-!
# The effects of a run

Whatever is evaluated or executed, and however it ends, a machine changes in few ways: it prints,
enters and leaves scopes, and assigns and declares variables (`Stock.Effect`). An expression
assigns and declares nothing outside of the methods that it calls. So what all of these changes
keep is kept by every run (`evaluates_evaluate`, `executes_execute`), as it is that the scopes hold
nothing but what a stock has (`Effect.stocked`).
-/

namespace TypedImp

/-- A stretch of a run: it evaluates expressions, or executes statements that declare these names
in the current scope. -/
inductive Stretch where
  | evaluating
  | executing (declared : List String)

/-- The names that a statement with this outcome has added to the scope that it stands in. -/
def Typed.Stmt.adds (s : Typed.Stmt) : Except Error Flow → List String
  | .ok _ =>
    match s with
    | .declaration target _ => [target.name]
    | _ => []
  | .error _ => []

namespace Stock

open Exec

variable {r : Registry} (S : Stock r)

/-- What a stretch of a run does to a machine, with values and callables from a stock. -/
inductive Effect : Stretch → Machine → Machine → Prop
  | rest (m : Machine) : Effect .evaluating m m
  | print (m : Machine) (text : String) : Effect .evaluating m { m with output := m.output ++ text }
  | call {m m' : Machine} {key : String × Nat} {method : Typed.Method} {closure : ScopeId}
      {declared : List String} (h : S.bound key (.method method closure))
      (body : Effect (.executing declared) (entered m closure) m') :
      Effect .evaluating m (left m m')
  | next {m m₁ m₂ : Machine} (h : Effect .evaluating m m₁) (h' : Effect .evaluating m₁ m₂) :
      Effect .evaluating m m₂
  | evaluate {m m' : Machine} (h : Effect .evaluating m m') : Effect (.executing []) m m'
  | assign {m : Machine} {s : ScopeId} {name : String} {old v : Value}
      {scopes : Arena Value Callable}
      (hs : s = m.current ∨ ∃ object, S.good object ∧ object.members = some s) (hv : S.good v)
      (h : m.scopes.setVariable s name v = .ok (old, scopes)) :
      Effect (.executing []) m { m with scopes }
  | declare {m : Machine} {name : String} {v : Value} {scopes : Arena Value Callable}
      (hv : S.good v) (h : m.scopes.defineVariable m.current name v = .ok scopes) :
      Effect (.executing [name]) m { m with scopes }
  | block {m m' : Machine} {declared : List String}
      (body : Effect (.executing declared) (entered m m.current) m') :
      Effect (.executing []) m (left m m')
  | andThen {m m₁ m₂ : Machine} {declared declared' : List String}
      (h : Effect (.executing declared) m m₁) (h' : Effect (.executing declared') m₁ m₂) :
      Effect (.executing (declared ++ declared')) m m₂

variable {S} {x : Context} {m : Machine} {α β : Type}

theorem Stocked.entered (hm : S.Stocked m) (parent : ScopeId) :
    S.Stocked (Exec.entered m parent) :=
  Arena.Fills.enter hm parent

theorem Effect.stocked {stretch : Stretch} {m' : Machine} (h : S.Effect stretch m m')
    (hm : S.Stocked m) : S.Stocked m' := by
  induction h with
  | rest | print => exact hm
  | call _ _ ih | block _ ih => exact Arena.Fills.exit (ih (hm.entered _)) _
  | next _ _ ih ih' | andThen _ _ ih ih' => exact ih' (ih hm)
  | evaluate _ ih => exact ih hm
  | assign _ hv ok => exact Arena.Fills.setVariable hm hv ok
  | declare hv ok => exact Arena.Fills.defineVariable hm hv ok

variable (S)

/-- However the step ends, it has only evaluated, and its result is as wanted. -/
def Evaluates (step : Exec α) (m : Machine) (post : α → Prop) : Prop :=
  ∀ outcome m', step.run m = some (outcome, m') →
    S.Effect .evaluating m m' ∧ ∀ a, outcome = .ok a → post a

/-- However the step ends, its outcome and the names that it declares are as wanted. -/
def Executes (step : Exec α) (m : Machine) (post : Except Error α → List String → Prop) : Prop :=
  ∀ outcome m', step.run m = some (outcome, m') →
    ∃ declared, S.Effect (.executing declared) m m' ∧ post outcome declared

def GoodFlow : Flow → Prop
  | .normal => True
  | .returned v => S.good v

/-- A body gives good values, whatever it declares. -/
def ExecutesBody (step : Exec Flow) (m : Machine) : Prop :=
  S.Executes step m fun outcome _ => ∀ flow, outcome = .ok flow → S.GoodFlow flow

/-- The step gives good values and declares nothing in the current scope. -/
def ExecutesQuietly (step : Exec Flow) (m : Machine) : Prop :=
  S.Executes step m fun outcome declared =>
    declared = [] ∧ ∀ flow, outcome = .ok flow → S.GoodFlow flow

variable {S} {good : α → Prop} {good' : β → Prop}

theorem evaluates_pure {a : α} (h : good a) : S.Evaluates (pure a) m good := by
  rintro outcome m' hrun
  obtain ⟨rfl, rfl⟩ := run_pure_eq_some.1 hrun
  refine ⟨.rest m', ?_⟩
  rintro _ ⟨⟩
  exact h

theorem evaluates_lift {o : Except Error α} (h : ∀ a, o = .ok a → good a) :
    S.Evaluates (liftM o) m good := by
  rintro outcome m' hrun
  rw [run_lift] at hrun
  cases hrun
  exact ⟨.rest m, h⟩

theorem evaluates_bind {step : Exec α} {next : α → Exec β} (h : S.Evaluates step m good)
    (hm : S.Stocked m) (hnext : ∀ a m₁, good a → S.Stocked m₁ → S.Evaluates (next a) m₁ good') :
    S.Evaluates (step >>= next) m good' := by
  intro outcome m' hrun
  rcases run_bind_eq_some.1 hrun with ⟨a, m₁, hs, hn⟩ | ⟨e, hs, rfl⟩
  · obtain ⟨heffect, hgood⟩ := h _ m₁ hs
    obtain ⟨heffect', hgood'⟩ := hnext a m₁ (hgood a rfl) (heffect.stocked hm) outcome m' hn
    exact ⟨heffect.next heffect', hgood'⟩
  · exact ⟨(h _ m' hs).1, fun _ h => nomatch h⟩

theorem evaluates_lift_bind {o : Except Error α} {next : α → Exec β}
    (h : ∀ a, o = .ok a → S.Evaluates (next a) m good') :
    S.Evaluates (liftM o >>= next) m good' := by
  intro outcome m' hrun
  rcases run_bind_eq_some.1 hrun with ⟨a, m₁, hs, hn⟩ | ⟨e, hs, rfl⟩
  · rw [run_lift] at hs
    cases hs
    exact h a rfl outcome m' hn
  · rw [run_lift] at hs
    cases hs
    exact ⟨.rest m, fun _ h => nomatch h⟩

theorem evaluates_get_bind {next : Machine → Exec β} (h : S.Evaluates (next m) m good') :
    S.Evaluates (get >>= next) m good' :=
  h

/-! ## Calls -/

theorem evaluates_print (values : List Value) : S.Evaluates (Exec.print values) m S.good := by
  cases values with
  | nil => exact evaluates_lift (o := .error _) (by rintro _ ⟨⟩)
  | cons v values =>
    intro outcome m' hrun
    unfold Exec.print at hrun
    rw [run_get_bind] at hrun
    dsimp only at hrun
    split at hrun
    · cases hrun
      exact ⟨.rest m, by rintro _ ⟨⟩⟩
    · cases hrun
      refine ⟨.print m _, ?_⟩
      rintro _ ⟨⟩
      exact S.good_nil

variable (S) in
/-- Whatever is bound as a method is run on good values as evaluation is. -/
def Serves (x : Context) : Prop :=
  ∀ ⦃key : String × Nat⦄ ⦃method : Typed.Method⦄ ⦃closure : ScopeId⦄ ⦃values : List Value⦄
    ⦃m : Machine⦄, S.bound key (.method method closure) → (∀ v ∈ values, S.good v) →
    S.Stocked m → S.Evaluates (x.call method closure values) m S.good

theorem evaluates_invoke (hx : S.Serves x) {key : String × Nat} {callable : Callable}
    {values : List Value} (h : S.bound key callable) (hvalues : ∀ v ∈ values, S.good v)
    (hm : S.Stocked m) : S.Evaluates (x.invoke callable values) m S.good := by
  cases callable with
  | body body => exact evaluates_lift fun v hv => S.good_body h hvalues hv
  | print => exact evaluates_print values
  | method method closure => exact hx h hvalues hm

/-! ## Expressions -/

mutual

/-- Evaluating an expression gives a good value. -/
theorem evaluates_evaluate (hr : x.registry = r) (hx : S.Serves x) :
    ∀ (e : Typed.Expr) {m : Machine}, S.Stocked m → S.Evaluates (x.evaluate e) m S.good
  | .literal value _, m, _ => by
    unfold Context.evaluate
    exact evaluates_pure (S.good_literal value)
  | .group inner _, m, hm => by
    unfold Context.evaluate
    exact evaluates_evaluate hr hx inner hm
  | .binary (.connective operator) left right _, m, hm => by
    unfold Context.evaluate
    refine evaluates_bind (evaluates_evaluate hr hx left hm) hm fun v m₁ _ hm₁ => ?_
    refine evaluates_lift_bind fun a _ => ?_
    split_ifs
    · exact evaluates_pure (S.good_boolean a)
    · refine evaluates_bind (evaluates_evaluate hr hx right hm₁) hm₁ fun w m₂ _ _ => ?_
      exact evaluates_lift_bind fun b _ => evaluates_pure (S.good_boolean b)
  | .binary (.relation operator) left right _, m, hm => by
    unfold Context.evaluate
    refine evaluates_bind (evaluates_evaluate hr hx left hm) hm fun v m₁ _ hm₁ => ?_
    refine evaluates_bind (evaluates_evaluate hr hx right hm₁) hm₁ fun w m₂ _ _ => ?_
    exact evaluates_lift_bind fun b _ => evaluates_pure (S.good_boolean b)
  | .binary (.arithmetic operator) left right _, m, hm => by
    unfold Context.evaluate
    refine evaluates_bind (evaluates_evaluate hr hx left hm) hm fun v m₁ _ hm₁ => ?_
    refine evaluates_bind (evaluates_evaluate hr hx right hm₁) hm₁ fun w m₂ _ _ => ?_
    exact evaluates_lift_bind fun d hd => evaluates_pure (S.good_apply hd)
  | .var target _, m, hm => by
    unfold Context.evaluate
    exact evaluates_get_bind (evaluates_lift fun v hv => hm.lookupVariable hv)
  | .field receiver target _, m, hm => by
    unfold Context.evaluate
    refine evaluates_bind (evaluates_evaluate hr hx receiver hm) hm fun object m₁ ho hm₁ => ?_
    rw [hr]
    exact evaluates_get_bind (evaluates_lift fun v hv => hm₁.readField ho hv)
  | .call function arguments _, m, hm => by
    unfold Context.evaluate
    refine evaluates_bind (evaluates_evaluateAll hr hx arguments hm) hm
      fun values m₁ hvalues hm₁ => ?_
    refine evaluates_get_bind (evaluates_lift_bind fun callable hc => ?_)
    exact evaluates_invoke hx (hm₁.lookupFunction hc) hvalues hm₁
  | .method receiver function arguments _, m, hm => by
    unfold Context.evaluate
    refine evaluates_bind (evaluates_evaluate hr hx receiver hm) hm fun object m₁ ho hm₁ => ?_
    refine evaluates_bind (evaluates_evaluateAll hr hx arguments hm₁) hm₁
      fun values m₂ hvalues hm₂ => ?_
    have hall : ∀ v ∈ object :: values, S.good v := List.forall_mem_cons.2 ⟨ho, hvalues⟩
    rw [hr]
    refine evaluates_get_bind (evaluates_lift_bind fun callable hc => ?_)
    rcases hm₂.resolveMethod hc with ⟨_, -, hbound⟩ | ⟨_, body, hmethod, hb, rfl⟩
    · exact evaluates_invoke hx hbound hall hm₂
    · exact evaluates_lift fun v hv => S.good_method hmethod hb hall hv

theorem evaluates_evaluateAll (hr : x.registry = r) (hx : S.Serves x) :
    ∀ (es : List Typed.Expr) {m : Machine}, S.Stocked m →
      S.Evaluates (x.evaluateAll es) m fun values => ∀ v ∈ values, S.good v
  | [], m, _ => by
    unfold Context.evaluateAll
    exact evaluates_pure fun _ h => absurd h List.not_mem_nil
  | e :: es, m, hm => by
    unfold Context.evaluateAll
    refine evaluates_bind (evaluates_evaluate hr hx e hm) hm fun v m₁ hv hm₁ => ?_
    refine evaluates_bind (evaluates_evaluateAll hr hx es hm₁) hm₁ fun values m₂ hvalues _ => ?_
    exact evaluates_pure (List.forall_mem_cons.2 ⟨hv, hvalues⟩)

end

/-! ## Statements -/

theorem Executes.mono {step : Exec α} {post post' : Except Error α → List String → Prop}
    (h : S.Executes step m post) (hpost : ∀ o declared, post o declared → post' o declared) :
    S.Executes step m post' := by
  intro outcome m' hrun
  obtain ⟨declared, heffect, ho⟩ := h outcome m' hrun
  exact ⟨declared, heffect, hpost outcome declared ho⟩

theorem executes_pure {a : α} {post : Except Error α → List String → Prop} (h : post (.ok a) []) :
    S.Executes (pure a) m post := by
  rintro outcome m' hrun
  obtain ⟨rfl, rfl⟩ := run_pure_eq_some.1 hrun
  exact ⟨[], .evaluate (.rest m'), h⟩

theorem executes_throw {e : Error} {post : Except Error α → List String → Prop}
    (h : post (.error e) []) : S.Executes (throw e) m post := by
  rintro outcome m' ⟨⟩
  exact ⟨[], .evaluate (.rest m), h⟩

/-- Evaluation declares nothing, whatever is executed after it. -/
theorem executes_bind {step : Exec α} {next : α → Exec β}
    {post : Except Error β → List String → Prop} (h : S.Evaluates step m good) (hm : S.Stocked m)
    (hnext : ∀ a m₁, good a → S.Stocked m₁ → S.Executes (next a) m₁ post)
    (herror : ∀ e, post (.error e) []) : S.Executes (step >>= next) m post := by
  intro outcome m' hrun
  rcases run_bind_eq_some.1 hrun with ⟨a, m₁, hs, hn⟩ | ⟨e, hs, rfl⟩
  · obtain ⟨heffect, hgood⟩ := h _ m₁ hs
    obtain ⟨declared, heffect', hpost⟩ :=
      hnext a m₁ (hgood a rfl) (heffect.stocked hm) outcome m' hn
    exact ⟨declared, .andThen (.evaluate heffect) heffect', hpost⟩
  · exact ⟨[], .evaluate (h _ m' hs).1, herror e⟩

theorem executes_seq {step : Exec α} {next : α → Exec β}
    {mid : Except Error α → List String → Prop} {post : Except Error β → List String → Prop}
    (h : S.Executes step m mid) (hm : S.Stocked m)
    (hnext : ∀ a declared m₁, mid (.ok a) declared → S.Stocked m₁ →
      S.Executes (next a) m₁ fun o declared' => post o (declared ++ declared'))
    (herror : ∀ e declared, mid (.error e) declared → post (.error e) declared) :
    S.Executes (step >>= next) m post := by
  intro outcome m' hrun
  rcases run_bind_eq_some.1 hrun with ⟨a, m₁, hs, hn⟩ | ⟨e, hs, rfl⟩
  · obtain ⟨declared, heffect, hmid⟩ := h _ m₁ hs
    obtain ⟨declared', heffect', hpost⟩ :=
      hnext a declared m₁ hmid (heffect.stocked hm) outcome m' hn
    exact ⟨_, heffect.andThen heffect', hpost⟩
  · obtain ⟨declared, heffect, hmid⟩ := h _ m' hs
    exact ⟨declared, heffect, herror e declared hmid⟩

theorem executes_get_bind {next : Machine → Exec β} {post : Except Error β → List String → Prop}
    (h : S.Executes (next m) m post) : S.Executes (get >>= next) m post :=
  h

theorem executes_defineVariable {name : String} {v : Value} (hv : S.good v) :
    S.Executes (Exec.defineVariable name v) m fun o declared =>
      (∀ a, o = .ok a → declared = [name]) ∧ ∀ e, o = .error e → declared = [] := by
  intro outcome m' hrun
  change (liftM (m.scopes.defineVariable m.current name v) >>= fun scopes =>
    set { m with scopes } : Exec PUnit).run m = _ at hrun
  rcases run_bind_eq_some.1 hrun with ⟨scopes, m₁, hs, hn⟩ | ⟨e, hs, rfl⟩
  · rw [run_lift] at hs
    cases hn
    obtain ⟨hok, rfl⟩ := Prod.mk.inj (Option.some.inj hs)
    exact ⟨[name], .declare hv hok, fun _ _ => rfl, fun _ h => nomatch h⟩
  · rw [run_lift] at hs
    obtain ⟨-, rfl⟩ := Prod.mk.inj (Option.some.inj hs)
    exact ⟨[], .evaluate (.rest m), by rintro _ ⟨⟩, fun _ _ => rfl⟩

theorem executes_setVariable {s : ScopeId} {name : String} {v : Value}
    (hs : s = m.current ∨ ∃ object, S.good object ∧ object.members = some s) (hv : S.good v) :
    S.Executes (Exec.setVariable s name v) m fun _ declared => declared = [] := by
  intro outcome m' hrun
  change (liftM (m.scopes.setVariable s name v) >>= fun p =>
    set { m with scopes := p.2 } : Exec PUnit).run m = _ at hrun
  rcases run_bind_eq_some.1 hrun with ⟨⟨old, scopes⟩, m₁, hset, hn⟩ | ⟨e, hset, rfl⟩
  · rw [run_lift] at hset
    cases hn
    obtain ⟨hok, rfl⟩ := Prod.mk.inj (Option.some.inj hset)
    exact ⟨[], .assign hs hv hok, rfl⟩
  · rw [run_lift] at hset
    obtain ⟨-, rfl⟩ := Prod.mk.inj (Option.some.inj hset)
    exact ⟨[], .evaluate (.rest m), rfl⟩

/-- What a body declares in a block's scope is gone with that scope. -/
theorem executes_inBlock {body : Exec Flow} (h : S.ExecutesBody body (entered m m.current)) :
    S.ExecutesQuietly (inBlock body) m := by
  intro outcome m' hrun
  obtain ⟨m₁, hb, rfl⟩ := run_inScope_eq_some.1 hrun
  obtain ⟨declared, heffect, hflow⟩ := h outcome m₁ hb
  exact ⟨[], heffect.block, rfl, hflow⟩

/-- A round of a loop over items, with the item as a variable of its own. -/
theorem executes_round {body : Exec Flow} {name : String} {item : Value} (hv : S.good item)
    (hm : S.Stocked m) (hbody : ∀ m, S.Stocked m → S.ExecutesBody body m) :
    S.ExecutesQuietly (inBlock do
      Exec.defineVariable name item
      body) m := by
  refine executes_inBlock (executes_seq (executes_defineVariable hv) (hm.entered _) ?_ ?_)
  · exact fun _ _ m₁ _ hm₁ => hbody m₁ hm₁
  · exact fun _ _ _ _ h => nomatch h

theorem executes_forEach {step : Value → Exec Flow} : ∀ {items : List Value} {m : Machine},
    (∀ item ∈ items, ∀ m, S.Stocked m → S.ExecutesQuietly (step item) m) → S.Stocked m →
    S.ExecutesQuietly (forEach step items) m
  | [], m, _, _ => executes_pure ⟨rfl, by rintro _ ⟨⟩; trivial⟩
  | item :: items, m, h, hm => by
    unfold forEach
    refine executes_seq (h item (.head _) m hm) hm ?_ fun e declared hmid =>
      ⟨hmid.1, fun _ h => nomatch h⟩
    rintro flow _ m₁ ⟨rfl, hflow⟩ hm₁
    cases flow with
    | normal => exact executes_forEach (fun i hi => h i (.tail _ hi)) hm₁
    | returned v => exact executes_pure ⟨rfl, hflow⟩

theorem executes_repeatWhile {condition : Exec Bool} {body : Exec Flow}
    (hc : ∀ m, S.Stocked m → S.Evaluates condition m fun _ => True)
    (hb : ∀ m, S.Stocked m → S.ExecutesQuietly body m) : ∀ {rounds : Nat} {m : Machine},
    S.Stocked m → S.ExecutesQuietly (repeatWhile condition body rounds) m
  | 0, m, _ => by rintro outcome m' ⟨⟩
  | rounds + 1, m, hm => by
    unfold repeatWhile
    refine executes_bind (hc m hm) hm (fun b m₁ _ hm₁ => ?_) fun e => ⟨rfl, fun _ h => nomatch h⟩
    cases b with
    | false => exact executes_pure ⟨rfl, by rintro _ ⟨⟩; trivial⟩
    | true =>
      refine executes_seq (hb m₁ hm₁) hm₁ ?_ fun e declared hmid =>
        ⟨hmid.1, fun _ h => nomatch h⟩
      rintro flow _ m₂ ⟨rfl, hflow⟩ hm₂
      cases flow with
      | normal => exact executes_repeatWhile hc hb hm₂
      | returned v => exact executes_pure ⟨rfl, hflow⟩

theorem evaluates_initialValue (hr : x.registry = r) (hx : S.Serves x) (value : Option Typed.Expr)
    (hm : S.Stocked m) : S.Evaluates (x.initialValue value) m S.good := by
  cases value with
  | none => exact evaluates_pure S.good_nil
  | some e => exact evaluates_evaluate hr hx e hm

theorem evaluates_condition (hr : x.registry = r) (hx : S.Serves x) (e : Typed.Expr)
    (hm : S.Stocked m) : S.Evaluates (x.condition e) m fun _ => True := by
  refine evaluates_bind (evaluates_evaluate hr hx e hm) hm fun v m₁ _ _ => ?_
  exact evaluates_lift fun _ _ => trivial

theorem executes_assign (hr : x.registry = r) (hx : S.Serves x) (value : Typed.Expr)
    (hm : S.Stocked m) : ∀ target : Typed.Expr,
    S.Executes (x.assign value target) m fun _ declared => declared = []
  | .var target _ => by
    refine executes_bind (evaluates_evaluate hr hx value hm) hm (fun v m₁ hv _ => ?_) fun _ => rfl
    exact executes_get_bind (executes_setVariable (.inl rfl) hv)
  | .field receiver target _ => by
    refine executes_bind (evaluates_evaluate hr hx receiver hm) hm (fun o m₁ ho hm₁ => ?_)
      fun _ => rfl
    refine executes_bind (evaluates_evaluate hr hx value hm₁) hm₁ (fun v m₂ hv hm₂ => ?_)
      fun _ => rfl
    have hscope : S.Evaluates (liftM (Machine.memberScope o target.name)) m₂
        fun members => o.members = some members :=
      evaluates_lift fun _ => Machine.memberScope_eq_ok.1
    refine executes_bind hscope hm₂ (fun members m₃ hmembers _ => ?_) fun _ => rfl
    exact executes_setVariable (.inr ⟨o, ho, hmembers⟩) hv
  | .literal _ _ | .group _ _ | .binary _ _ _ _ | .call _ _ _ | .method _ _ _ _ =>
    executes_throw rfl

mutual

/-- Executing a statement declares the statement's own variable if it succeeds, and nothing
else. -/
theorem executes_execute (hr : x.registry = r) (hx : S.Serves x) :
    ∀ (st : Typed.Stmt) {m : Machine}, S.Stocked m →
      S.Executes (x.execute st) m fun o declared =>
        declared = st.adds o ∧ ∀ flow, o = .ok flow → S.GoodFlow flow
  | .expression e, m, hm => by
    unfold Context.execute
    refine executes_bind (evaluates_evaluate hr hx e hm) hm (fun _ _ _ _ => ?_)
      fun _ => ⟨rfl, fun _ h => nomatch h⟩
    exact executes_pure ⟨rfl, by rintro _ ⟨⟩; trivial⟩
  | .declaration target value, m, hm => by
    unfold Context.execute
    refine executes_bind (evaluates_initialValue hr hx value hm) hm (fun v m₁ hv hm₁ => ?_)
      fun _ => ⟨rfl, fun _ h => nomatch h⟩
    refine executes_seq (executes_defineVariable hv) hm₁ ?_ fun e declared hmid =>
      ⟨hmid.2 e rfl, fun _ h => nomatch h⟩
    rintro _ declared m₂ ⟨hd, -⟩ -
    obtain rfl := hd _ rfl
    exact executes_pure ⟨rfl, by rintro _ ⟨⟩; trivial⟩
  | .assignment target value, m, hm => by
    unfold Context.execute
    refine executes_seq (executes_assign hr hx value hm target) hm ?_ fun _ _ hmid =>
      ⟨hmid, fun _ h => nomatch h⟩
    rintro _ _ m₁ rfl -
    exact executes_pure ⟨rfl, by rintro _ ⟨⟩; trivial⟩
  | .conditional condition thenBody elseBody, m, hm => by
    unfold Context.execute
    refine executes_bind (evaluates_condition hr hx condition hm) hm (fun b m₁ _ hm₁ => ?_)
      fun _ => ⟨rfl, fun _ h => nomatch h⟩
    have hquiet : S.ExecutesQuietly
        (if b = true then inBlock (x.executeBlock thenBody)
          else inBlock (x.executeBlock elseBody)) m₁ := by
      split_ifs
      · exact executes_inBlock (executes_executeBlock hr hx thenBody (hm₁.entered _))
      · exact executes_inBlock (executes_executeBlock hr hx elseBody (hm₁.entered _))
    refine hquiet.mono ?_
    rintro (_ | _) _ ⟨rfl, hflow⟩ <;> exact ⟨rfl, hflow⟩
  | .each target items body, m, hm => by
    unfold Context.execute
    refine executes_bind (evaluates_evaluate hr hx items hm) hm (fun v m₁ hv hm₁ => ?_)
      fun _ => ⟨rfl, fun _ h => nomatch h⟩
    split
    · rename_i values hvalues
      refine (executes_forEach (fun item hitem m hm => ?_) hm₁).mono ?_
      · exact executes_round (S.good_item hv hvalues item hitem) hm fun m hm =>
          executes_executeBlock hr hx body hm
      · rintro (_ | _) _ ⟨rfl, hflow⟩ <;> exact ⟨rfl, hflow⟩
    · exact executes_throw ⟨rfl, fun _ h => nomatch h⟩
  | .loop condition body, m, hm => by
    unfold Context.execute
    refine (executes_repeatWhile (fun m hm => evaluates_condition hr hx condition hm)
      (fun m hm => executes_inBlock (executes_executeBlock hr hx body (hm.entered _)))
      hm).mono ?_
    rintro (_ | _) _ ⟨rfl, hflow⟩ <;> exact ⟨rfl, hflow⟩
  | .ret value, m, hm => by
    unfold Context.execute
    refine executes_bind (evaluates_evaluate hr hx value hm) hm (fun v m₁ hv _ => ?_)
      fun _ => ⟨rfl, fun _ h => nomatch h⟩
    exact executes_pure ⟨rfl, by rintro _ ⟨⟩; exact hv⟩

theorem executes_executeBlock (hr : x.registry = r) (hx : S.Serves x) :
    ∀ (ss : List Typed.Stmt) {m : Machine}, S.Stocked m → S.ExecutesBody (x.executeBlock ss) m
  | [], m, _ => by
    unfold Context.executeBlock
    exact executes_pure (by rintro _ ⟨⟩; trivial)
  | st :: ss, m, hm => by
    unfold Context.executeBlock
    refine executes_seq (executes_execute hr hx st hm) hm ?_ fun _ _ _ _ h => nomatch h
    rintro flow declared m₁ ⟨-, hflow⟩ hm₁
    cases flow with
    | normal => exact executes_executeBlock hr hx ss hm₁
    | returned v => exact executes_pure hflow

end

/-! ## Methods -/

theorem executes_defineParameters : ∀ {names : List String} {values : List Value} {m : Machine},
    (∀ v ∈ values, S.good v) → S.Stocked m →
    S.Executes (Exec.defineParameters names values) m fun _ _ => True
  | [], _, _, _, _ => executes_pure trivial
  | _ :: _, [], _, _, _ => executes_pure trivial
  | name :: names, v :: values, m, hvalues, hm => by
    rw [List.forall_mem_cons] at hvalues
    unfold Exec.defineParameters
    refine executes_seq (executes_defineVariable hvalues.1) hm (fun _ _ m₁ _ hm₁ => ?_)
      fun _ _ _ => trivial
    exact executes_defineParameters hvalues.2 hm₁

/-- The body of a method, once its scope is entered. -/
theorem executes_body {x : Context} (hx : x.registry = r) (hserves : S.Serves x)
    (method : Typed.Method) {values : List Value} (hvalues : ∀ v ∈ values, S.good v)
    (hm : S.Stocked m) :
    S.Executes (do
      Exec.defineParameters method.parameters values
      match ← x.executeBlock method.body with
      | .returned value => return value
      | .normal => return .nil) m fun o _ => ∀ v, o = .ok v → S.good v := by
  refine executes_seq (executes_defineParameters hvalues hm) hm (fun _ _ m₁ _ hm₁ => ?_)
    (by rintro _ _ _ _ ⟨⟩)
  refine executes_seq (executes_executeBlock hx hserves method.body hm₁) hm₁
    (fun flow _ m₂ hflow _ => ?_) (by rintro _ _ _ _ ⟨⟩)
  cases flow with
  | normal => exact executes_pure (by rintro _ ⟨⟩; exact S.good_nil)
  | returned v => exact executes_pure (by rintro _ ⟨⟩; exact hflow _ rfl)

/-- However deep calls may nest, a call only evaluates. -/
theorem serves_callMethod (S : Stock r) (rounds : Nat) : ∀ depth : Nat,
    S.Serves ⟨r, callMethod r rounds depth, rounds⟩
  | 0, _, _, _, _, _, _, _, _ => by rintro outcome m' ⟨⟩
  | depth + 1, _, method, closure, values, m, h, hvalues, hm => by
    unfold callMethod
    intro outcome m' hrun
    split_ifs at hrun with hl
    · cases hrun
      exact ⟨.rest m, by rintro _ ⟨⟩⟩
    · obtain ⟨m₁, hb, rfl⟩ := run_inScope_eq_some.1 hrun
      obtain ⟨declared, heffect, hgood⟩ := executes_body rfl (serves_callMethod S rounds depth)
        method hvalues (hm.entered closure) outcome m₁ hb
      exact ⟨heffect.call h, hgood⟩

theorem serves_within (S : Stock r) (budget : Budget) : S.Serves (.within r budget) :=
  serves_callMethod S budget.rounds budget.depth

end Stock

end TypedImp
