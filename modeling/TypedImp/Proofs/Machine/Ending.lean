import TypedImp.Proofs.Machine.Effect
import TypedImp.Proofs.Typing.Calls

/-!
# What ends within any budget

What repeats nothing but for the items of a sequence ends, and ends in the same way within two
budgets, if all that it calls does (`endAlike_evaluate`, `endAlike_executeBlock`). Values have no
members of their own here, so calls with a receiver reach nothing but the registry's bodies.
-/

namespace TypedImp

variable {α β : Type}

namespace Exec

/-- Both steps end from this machine, and in the same way. -/
def EndAlike (step step' : Exec α) (m : Machine) : Prop :=
  ∃ result, step.run m = some result ∧ step'.run m = some result

variable {m : Machine}

theorem endAlike_lift (o : Except Error α) : EndAlike (liftM o) (liftM o) m :=
  ⟨_, run_lift o m, run_lift o m⟩

theorem endAlike_pure (a : α) : EndAlike (pure a) (pure a) m :=
  ⟨_, rfl, rfl⟩

theorem endAlike_throw (e : Error) : EndAlike (throw e : Exec α) (throw e) m :=
  ⟨_, rfl, rfl⟩

/-- After a step that ends alike, there is one machine to go on from. -/
theorem endAlike_bind {step step' : Exec α} {next next' : α → Exec β} (h : EndAlike step step' m)
    (hnext : ∀ a m₁, step.run m = some (.ok a, m₁) → EndAlike (next a) (next' a) m₁) :
    EndAlike (step >>= next) (step' >>= next') m := by
  obtain ⟨⟨outcome, m₁⟩, hs, hs'⟩ := h
  cases outcome with
  | error e =>
    exact ⟨_, run_bind_eq_some.2 (.inr ⟨e, hs, rfl⟩), run_bind_eq_some.2 (.inr ⟨e, hs', rfl⟩)⟩
  | ok a =>
    obtain ⟨⟨outcome, m₂⟩, hn, hn'⟩ := hnext a m₁ hs
    exact ⟨_, run_bind_eq_some.2 (.inl ⟨a, m₁, hs, hn⟩),
      run_bind_eq_some.2 (.inl ⟨a, m₁, hs', hn'⟩)⟩

theorem endAlike_lift_bind {o : Except Error α} {next next' : α → Exec β}
    (h : ∀ a, o = .ok a → EndAlike (next a) (next' a) m) :
    EndAlike (liftM o >>= next) (liftM o >>= next') m := by
  refine endAlike_bind (endAlike_lift o) fun a m₁ hrun => ?_
  rw [run_lift] at hrun
  cases hrun
  exact h a rfl

theorem endAlike_get_bind {next next' : Machine → Exec β} (h : EndAlike (next m) (next' m) m) :
    EndAlike (get >>= next) (get >>= next') m :=
  h

theorem endAlike_set (m' : Machine) : EndAlike (set m') (set m') m :=
  ⟨_, rfl, rfl⟩

theorem endAlike_set_bind {m' : Machine} {next next' : PUnit → Exec β}
    (h : EndAlike (next ⟨⟩) (next' ⟨⟩) m') : EndAlike (set m' >>= next) (set m' >>= next') m :=
  h

theorem endAlike_inScope {step step' : Exec α} {parent : ScopeId}
    (h : EndAlike step step' (entered m parent)) :
    EndAlike (inScope parent step) (inScope parent step') m := by
  obtain ⟨result, hs, hs'⟩ := h
  exact ⟨_, run_inScope_eq_some.2 ⟨_, hs, rfl⟩, run_inScope_eq_some.2 ⟨_, hs', rfl⟩⟩

theorem endAlike_inBlock {step step' : Exec α} (h : EndAlike step step' (entered m m.current)) :
    EndAlike (inBlock step) (inBlock step') m :=
  endAlike_get_bind (endAlike_inScope h)

theorem endAlike_defineVariable (name : String) (v : Value) :
    EndAlike (defineVariable name v) (defineVariable name v) m :=
  endAlike_get_bind (endAlike_lift_bind fun _ _ => endAlike_set _)

theorem endAlike_setVariable (s : ScopeId) (name : String) (v : Value) :
    EndAlike (setVariable s name v) (setVariable s name v) m :=
  endAlike_get_bind (endAlike_lift_bind fun _ _ => endAlike_set _)

theorem endAlike_defineParameters : ∀ (names : List String) (values : List Value) {m : Machine},
    EndAlike (defineParameters names values) (defineParameters names values) m
  | [], _, _ | _ :: _, [], _ => endAlike_pure ()
  | name :: names, v :: values, _ =>
    endAlike_bind (endAlike_defineVariable name v) fun _ _ _ =>
      endAlike_defineParameters names values

theorem endAlike_print : ∀ values : List Value, EndAlike (print values) (print values) m
  | [] => endAlike_throw _
  | v :: values => by
    unfold print
    refine endAlike_get_bind ?_
    dsimp only
    split
    · exact endAlike_throw _
    · exact endAlike_bind (endAlike_set _) fun _ _ _ => endAlike_pure _

theorem endAlike_defineMethods : ∀ (methods : List Typed.Method) {m : Machine},
    EndAlike (Context.defineMethods methods) (Context.defineMethods methods) m
  | [], _ => endAlike_pure ()
  | _ :: methods, _ =>
    endAlike_get_bind (endAlike_lift_bind fun _ _ =>
      endAlike_set_bind (endAlike_defineMethods methods))

end Exec

open Exec

theorem length_of_evaluateAll {x : Context} : ∀ {es : List Typed.Expr} {values : List Value}
    {m m' : Machine}, (x.evaluateAll es).run m = some (.ok values, m') →
    values.length = es.length
  | [], values, m, m', h => by
    unfold Context.evaluateAll at h
    cases h
    rfl
  | e :: es, values, m, m', h => by
    unfold Context.evaluateAll at h
    obtain ⟨v, m₁, -, h⟩ := run_bind_eq_ok.1 h
    obtain ⟨vs, m₂, hs, h⟩ := run_bind_eq_ok.1 h
    cases h
    exact congrArg (· + 1) (length_of_evaluateAll hs)

namespace Stock

variable {r : Registry} (S : Stock r)

/-- In both contexts what is allowed is called in the same way, and the call ends. -/
structure Answers (allowed : String × Nat → Prop) (x x' : Context) : Prop where
  registry : x.registry = r
  registry' : x'.registry = r
  bare : ∀ v, S.good v → v.members = none
  serves : S.Serves x
  call {key : String × Nat} {method : Typed.Method} {closure : ScopeId} {values : List Value}
    {m : Machine} (hkey : allowed key) (hc : S.bound key (.method method closure))
    (hvalues : ∀ v ∈ values, S.good v) (hm : S.Stocked m) :
    EndAlike (x.call method closure values) (x'.call method closure values) m

variable {S} {allowed : String × Nat → Prop} {x x' : Context} {m : Machine} {good : α → Prop}

theorem endAlike_evaluates_bind {step step' : Exec α} {next next' : α → Exec β}
    (h : EndAlike step step' m) (he : S.Evaluates step m good) (hm : S.Stocked m)
    (hnext : ∀ a m₁, good a → S.Stocked m₁ → EndAlike (next a) (next' a) m₁) :
    EndAlike (step >>= next) (step' >>= next') m := by
  refine endAlike_bind h fun a m₁ hrun => ?_
  obtain ⟨heffect, hgood⟩ := he _ _ hrun
  exact hnext a m₁ (hgood a rfl) (heffect.stocked hm)

/-- The items of a sequence are gone through once. -/
theorem endAlike_forEach {step step' : Value → Exec Flow} : ∀ {items : List Value} {m : Machine},
    (∀ item ∈ items, ∀ m, S.Stocked m → EndAlike (step item) (step' item) m ∧
      S.ExecutesQuietly (step item) m) → S.Stocked m →
    EndAlike (forEach step items) (forEach step' items) m
  | [], m, _, _ => endAlike_pure _
  | item :: items, m, h, hm => by
    obtain ⟨hend, hquiet⟩ := h item (.head _) m hm
    unfold forEach
    refine endAlike_bind hend fun flow m₁ hrun => ?_
    obtain ⟨_, heffect, -⟩ := hquiet _ _ hrun
    cases flow with
    | normal =>
      exact endAlike_forEach (fun i hi => h i (.tail _ hi)) (heffect.stocked hm)
    | returned v => exact endAlike_pure _

variable (hx : S.Answers allowed x x')

include hx

theorem endAlike_invoke {key : String × Nat} {callable : Callable} {values : List Value}
    (hkey : allowed key) (hc : S.bound key callable) (hvalues : ∀ v ∈ values, S.good v)
    (hm : S.Stocked m) : EndAlike (x.invoke callable values) (x'.invoke callable values) m := by
  cases callable with
  | body body => exact endAlike_lift (body values)
  | print => exact endAlike_print values
  | method method closure => exact hx.call hkey hc hvalues hm

/-! ## Expressions -/

mutual

theorem endAlike_evaluate : ∀ (e : Typed.Expr) {m : Machine}, (∀ key ∈ e.calls, allowed key) →
    S.Stocked m → EndAlike (x.evaluate e) (x'.evaluate e) m
  | .literal value _, m, _, _ => by
    unfold Context.evaluate
    exact endAlike_pure _
  | .group inner _, m, h, hm => by
    unfold Typed.Expr.calls at h
    unfold Context.evaluate
    exact endAlike_evaluate inner h hm
  | .binary (.connective operator) left right _, m, h, hm => by
    unfold Typed.Expr.calls at h
    rw [List.forall_mem_append] at h
    unfold Context.evaluate
    refine endAlike_evaluates_bind (endAlike_evaluate left h.1 hm)
      (evaluates_evaluate hx.registry hx.serves left hm) hm fun v m₁ _ hm₁ => ?_
    refine endAlike_lift_bind fun a _ => ?_
    split_ifs
    · exact endAlike_pure _
    · refine endAlike_bind (endAlike_evaluate right h.2 hm₁) fun w m₂ _ => ?_
      exact endAlike_lift_bind fun b _ => endAlike_pure _
  | .binary (.relation operator) left right _, m, h, hm => by
    unfold Typed.Expr.calls at h
    rw [List.forall_mem_append] at h
    unfold Context.evaluate
    refine endAlike_evaluates_bind (endAlike_evaluate left h.1 hm)
      (evaluates_evaluate hx.registry hx.serves left hm) hm fun v m₁ _ hm₁ => ?_
    refine endAlike_bind (endAlike_evaluate right h.2 hm₁) fun w m₂ _ => ?_
    exact endAlike_lift_bind fun b _ => endAlike_pure _
  | .binary (.arithmetic operator) left right _, m, h, hm => by
    unfold Typed.Expr.calls at h
    rw [List.forall_mem_append] at h
    unfold Context.evaluate
    refine endAlike_evaluates_bind (endAlike_evaluate left h.1 hm)
      (evaluates_evaluate hx.registry hx.serves left hm) hm fun v m₁ _ hm₁ => ?_
    refine endAlike_bind (endAlike_evaluate right h.2 hm₁) fun w m₂ _ => ?_
    exact endAlike_lift_bind fun d _ => endAlike_pure _
  | .var target _, m, _, _ => by
    unfold Context.evaluate
    exact endAlike_get_bind (endAlike_lift _)
  | .field receiver target _, m, h, hm => by
    unfold Typed.Expr.calls at h
    unfold Context.evaluate
    rw [hx.registry, hx.registry']
    refine endAlike_bind (endAlike_evaluate receiver h hm) fun v m₁ _ => ?_
    exact endAlike_get_bind (endAlike_lift _)
  | .call function arguments _, m, h, hm => by
    unfold Typed.Expr.calls at h
    rw [List.forall_mem_cons] at h
    unfold Context.evaluate
    refine endAlike_bind (endAlike_evaluateAll arguments h.2 hm) fun values m₁ hrun => ?_
    obtain ⟨heffect, hvalues⟩ :=
      evaluates_evaluateAll hx.registry hx.serves arguments hm _ _ hrun
    have hm₁ := heffect.stocked hm
    refine endAlike_get_bind (endAlike_lift_bind fun callable hc => ?_)
    rw [length_of_evaluateAll hrun] at hc
    exact endAlike_invoke hx h.1 (hm₁.lookupFunction hc) (hvalues _ rfl) hm₁
  | .method receiver function arguments _, m, h, hm => by
    unfold Typed.Expr.calls at h
    rw [List.forall_mem_append] at h
    unfold Context.evaluate
    rw [hx.registry, hx.registry']
    refine endAlike_evaluates_bind (endAlike_evaluate receiver h.1 hm)
      (evaluates_evaluate hx.registry hx.serves receiver hm) hm fun v m₁ hv hm₁ => ?_
    refine endAlike_evaluates_bind (endAlike_evaluateAll arguments h.2 hm₁)
      (evaluates_evaluateAll hx.registry hx.serves arguments hm₁) hm₁ fun values m₂ _ hm₂ => ?_
    refine endAlike_get_bind (endAlike_lift_bind fun callable hc => ?_)
    rcases hm₂.resolveMethod hc with ⟨members, hmembers, -⟩ | ⟨_, body, -, -, rfl⟩
    · rw [hx.bare v hv] at hmembers
      cases hmembers
    · exact endAlike_lift (body (v :: values))

theorem endAlike_evaluateAll : ∀ (es : List Typed.Expr) {m : Machine},
    (∀ key ∈ Typed.exprsCalls es, allowed key) → S.Stocked m →
    EndAlike (x.evaluateAll es) (x'.evaluateAll es) m
  | [], m, _, _ => by
    unfold Context.evaluateAll
    exact endAlike_pure _
  | e :: es, m, h, hm => by
    unfold Typed.exprsCalls at h
    rw [List.forall_mem_append] at h
    unfold Context.evaluateAll
    refine endAlike_evaluates_bind (endAlike_evaluate e h.1 hm)
      (evaluates_evaluate hx.registry hx.serves e hm) hm fun v m₁ _ hm₁ => ?_
    refine endAlike_bind (endAlike_evaluateAll es h.2 hm₁) fun values m₂ _ => ?_
    exact endAlike_pure _

end

/-! ## Statements -/

theorem endAlike_initialValue : ∀ (value : Option Typed.Expr),
    (∀ key ∈ value.elim [] Typed.Expr.calls, allowed key) → S.Stocked m →
    EndAlike (x.initialValue value) (x'.initialValue value) m
  | none, _, _ => endAlike_pure _
  | some e, h, hm => endAlike_evaluate hx e h hm

theorem endAlike_condition (e : Typed.Expr) (h : ∀ key ∈ e.calls, allowed key)
    (hm : S.Stocked m) : EndAlike (x.condition e) (x'.condition e) m :=
  endAlike_bind (endAlike_evaluate hx e h hm) fun _ _ _ => endAlike_lift _

theorem endAlike_assign (value : Typed.Expr) (hv : ∀ key ∈ value.calls, allowed key)
    (hm : S.Stocked m) : ∀ target : Typed.Expr, (∀ key ∈ target.calls, allowed key) →
    EndAlike (x.assign value target) (x'.assign value target) m
  | .var target _, _ => by
    refine endAlike_bind (endAlike_evaluate hx value hv hm) fun v m₁ _ => ?_
    exact endAlike_get_bind (endAlike_setVariable _ _ _)
  | .field receiver target _, h => by
    unfold Typed.Expr.calls at h
    refine endAlike_evaluates_bind (endAlike_evaluate hx receiver h hm)
      (evaluates_evaluate hx.registry hx.serves receiver hm) hm fun o m₁ _ hm₁ => ?_
    refine endAlike_bind (endAlike_evaluate hx value hv hm₁) fun v m₂ _ => ?_
    exact endAlike_lift_bind fun members _ => endAlike_setVariable _ _ _
  | .literal _ _, _ | .group _ _, _ | .binary _ _ _ _, _ | .call _ _ _, _ | .method _ _ _ _, _ =>
    endAlike_throw _

mutual

theorem endAlike_execute : ∀ (st : Typed.Stmt) {m : Machine}, st.Loopless →
    (∀ key ∈ st.calls, allowed key) → S.Stocked m → EndAlike (x.execute st) (x'.execute st) m
  | .expression e, m, _, h, hm => by
    unfold Typed.Stmt.calls at h
    unfold Context.execute
    exact endAlike_bind (endAlike_evaluate hx e h hm) fun _ _ _ => endAlike_pure _
  | .declaration target value, m, _, h, hm => by
    unfold Typed.Stmt.calls at h
    unfold Context.execute
    refine endAlike_bind (endAlike_initialValue hx value h hm) fun v m₁ _ => ?_
    exact endAlike_bind (endAlike_defineVariable _ _) fun _ _ _ => endAlike_pure _
  | .assignment target value, m, _, h, hm => by
    unfold Typed.Stmt.calls at h
    rw [List.forall_mem_append] at h
    unfold Context.execute
    exact endAlike_bind (endAlike_assign hx value h.2 hm target h.1) fun _ _ _ => endAlike_pure _
  | .conditional condition thenBody elseBody, m, hl, h, hm => by
    unfold Typed.Stmt.Loopless at hl
    unfold Typed.Stmt.calls at h
    rw [List.forall_mem_append, List.forall_mem_append] at h
    unfold Context.execute
    refine endAlike_evaluates_bind (endAlike_condition hx condition h.1 hm)
      (evaluates_condition hx.registry hx.serves condition hm) hm fun b m₁ _ hm₁ => ?_
    split_ifs
    · exact endAlike_inBlock (endAlike_executeBlock thenBody hl.1 h.2.1 (hm₁.entered _))
    · exact endAlike_inBlock (endAlike_executeBlock elseBody hl.2 h.2.2 (hm₁.entered _))
  | .each target items body, m, hl, h, hm => by
    unfold Typed.Stmt.Loopless at hl
    unfold Typed.Stmt.calls at h
    rw [List.forall_mem_append] at h
    unfold Context.execute
    refine endAlike_evaluates_bind (endAlike_evaluate hx items h.1 hm)
      (evaluates_evaluate hx.registry hx.serves items hm) hm fun v m₁ hv hm₁ => ?_
    split
    · rename_i values hvalues
      refine endAlike_forEach (fun item hitem m hm => ?_) hm₁
      have hgood := S.good_item hv hvalues item hitem
      refine ⟨endAlike_inBlock (endAlike_bind (endAlike_defineVariable _ _) fun _ m₂ hrun => ?_),
        executes_round hgood hm fun m hm => executes_executeBlock hx.registry hx.serves body hm⟩
      obtain ⟨_, heffect, -⟩ := executes_defineVariable hgood _ _ hrun
      exact endAlike_executeBlock body hl h.2 (heffect.stocked (hm.entered _))
    · exact endAlike_throw _
  | .loop condition body, m, hl, _, _ => by
    unfold Typed.Stmt.Loopless at hl
    exact hl.elim
  | .ret value, m, _, h, hm => by
    unfold Typed.Stmt.calls at h
    unfold Context.execute
    exact endAlike_bind (endAlike_evaluate hx value h hm) fun _ _ _ => endAlike_pure _

theorem endAlike_executeBlock : ∀ (ss : List Typed.Stmt) {m : Machine}, Typed.BlockLoopless ss →
    (∀ key ∈ Typed.blockCalls ss, allowed key) → S.Stocked m →
    EndAlike (x.executeBlock ss) (x'.executeBlock ss) m
  | [], m, _, _, _ => by
    unfold Context.executeBlock
    exact endAlike_pure _
  | st :: ss, m, hl, h, hm => by
    unfold Typed.BlockLoopless at hl
    unfold Typed.blockCalls at h
    rw [List.forall_mem_append] at h
    unfold Context.executeBlock
    refine endAlike_bind (endAlike_execute st hl.1 h.1 hm) fun flow m₁ hrun => ?_
    obtain ⟨_, heffect, -⟩ := executes_execute hx.registry hx.serves st hm _ _ hrun
    cases flow with
    | normal => exact endAlike_executeBlock ss hl.2 h.2 (heffect.stocked hm)
    | returned v => exact endAlike_pure _

end

/-! ## Programs -/

theorem endAlike_defineFields : ∀ (fields : List Typed.Field) {m : Machine},
    (∀ field ∈ fields, ∀ key ∈ field.calls, allowed key) → S.Stocked m →
    EndAlike (x.defineFields fields) (x'.defineFields fields) m
  | [], _, _, _ => endAlike_pure ()
  | field :: fields, m, h, hm => by
    rw [List.forall_mem_cons] at h
    unfold Context.defineFields
    refine endAlike_evaluates_bind (endAlike_initialValue hx field.value h.1 hm)
      (evaluates_initialValue hx.registry hx.serves field.value hm) hm fun v m₁ hv hm₁ => ?_
    refine endAlike_get_bind (endAlike_lift_bind fun m₂ hdef => endAlike_set_bind ?_)
    obtain ⟨scopes, hscopes, rfl⟩ := Machine.defineVariable_eq_ok.1 hdef
    exact endAlike_defineFields fields h.2 (Arena.Fills.defineVariable hm₁ hv hscopes)

omit hx

/-- A call takes one more nested call than its body. -/
theorem endAlike_callMethod {rounds rounds' depth depth' : Nat}
    (hx : S.Answers allowed ⟨r, callMethod r rounds depth, rounds⟩
      ⟨r, callMethod r rounds' depth', rounds'⟩)
    {method : Typed.Method} (hl : Typed.BlockLoopless method.body)
    (h : ∀ key ∈ Typed.blockCalls method.body, allowed key) (closure : ScopeId)
    {values : List Value} (hvalues : ∀ v ∈ values, S.good v) (hm : S.Stocked m) :
    EndAlike (callMethod r rounds (depth + 1) method closure values)
      (callMethod r rounds' (depth' + 1) method closure values) m := by
  unfold callMethod
  split_ifs
  · exact endAlike_throw _
  · refine endAlike_inScope (endAlike_bind (endAlike_defineParameters _ _) fun _ m₁ hrun => ?_)
    obtain ⟨_, heffect, -⟩ := executes_defineParameters hvalues (hm.entered _) _ _ hrun
    have hm₁ := heffect.stocked (hm.entered _)
    refine endAlike_bind (endAlike_executeBlock hx method.body hl h hm₁) fun flow m₂ _ => ?_
    cases flow <;> exact endAlike_pure _

end Stock

end TypedImp
