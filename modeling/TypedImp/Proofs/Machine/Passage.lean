import TypedImp.Proofs.Machine.Parts
import TypedImp.Proofs.Machine.Scopes

/-!
# Between the moments of a run

From one moment of a run to the next, a machine goes through effects of what has ended, registers
methods and enters scopes (`Stock.Passes`). What a run is about to do with values and methods, it
does with those of a stock if its machine was stocked when it began (`Covers.passes`).
-/

namespace TypedImp

namespace Stock

open Exec

variable {r : Registry} (S : Stock r)

/-- What a run may have done once it is back in the scope that it began in. -/
inductive Works : Machine → Machine → Prop
  | effect {stretch : Stretch} {m m' : Machine} (h : S.Effect stretch m m') : Works m m'
  | register {m m' : Machine} {name : String} {arity : Nat} {callable : Callable}
      (hc : S.bound (name, arity) callable) (h : m.defineFunction name arity callable = .ok m') :
      Works m m'

/-- What may lie between two moments of a run. -/
inductive Passes : Machine → Machine → Prop
  | work {m m' : Machine} (h : S.Works m m') : Passes m m'
  | block (m : Machine) : Passes m (entered m m.current)
  | body {key : String × Nat} {method : Typed.Method} {closure : ScopeId}
      (hc : S.bound key (.method method closure)) (m : Machine) : Passes m (entered m closure)

/-- A program's methods may be bound as they are defined. -/
def Admits (p : Typed.Program) : Prop :=
  ∀ method ∈ p.methods,
    S.bound (method.function.name, method.parameters.length) (.method method Machine.root)

/-- What is about to be done uses what is in the stock. -/
def Suits (m : Machine) : Task → Prop
  | .rounds _ items _ => ∀ item ∈ items, S.good item
  | .body method closure values =>
    (∃ key, S.bound key (.method method closure)) ∧ ∀ v ∈ values, S.good v
  | .program p => m.current = Machine.root ∧ S.Admits p
  | _ => True

structure Covers (a : Moment) : Prop where
  stocked : S.Stocked a.machine
  suits : S.Suits a.machine a.task

variable {S} {rounds : Nat} {m m' : Machine}

theorem Works.stocked (h : S.Works m m') (hm : S.Stocked m) : S.Stocked m' := by
  cases h with
  | effect h => exact h.stocked hm
  | register hc h =>
    obtain ⟨scopes, hscopes, rfl⟩ := Machine.defineFunction_eq_ok.1 h
    exact Arena.Fills.defineFunction hm hc hscopes

theorem Passes.stocked (h : S.Passes m m') (hm : S.Stocked m) : S.Stocked m' := by
  cases h with
  | work h => exact h.stocked hm
  | block | body => exact hm.entered _

theorem Works.aligned (h : S.Works m m') : m.Aligned m' := by
  cases h with
  | effect h => exact h.kept.toAligned
  | register _ h =>
    obtain ⟨scopes, hscopes, rfl⟩ := Machine.defineFunction_eq_ok.1 h
    obtain ⟨-, rfl⟩ := Arena.defineFunction_eq_ok.1 hscopes
    exact Machine.aligned_bindFunction ..

theorem Works.grown (h : S.Works m m') : m.scopes.Grown m'.scopes := by
  cases h with
  | effect h => exact h.kept.grown
  | register _ h =>
    obtain ⟨scopes, hscopes, rfl⟩ := Machine.defineFunction_eq_ok.1 h
    obtain ⟨-, rfl⟩ := Arena.defineFunction_eq_ok.1 hscopes
    exact .bindFunction ..

theorem stocked_of_works (h : Relation.ReflTransGen S.Works m m') (hm : S.Stocked m) :
    S.Stocked m' := by
  induction h with
  | refl => exact hm
  | tail _ h ih => exact h.stocked ih

theorem aligned_of_works (h : Relation.ReflTransGen S.Works m m') : m.Aligned m' := by
  induction h with
  | refl => exact (Machine.Kept.refl m).toAligned
  | tail _ h ih => exact ih.trans h.aligned

theorem grown_of_works (h : Relation.ReflTransGen S.Works m m') : m.scopes.Grown m'.scopes := by
  induction h with
  | refl => exact .refl _
  | tail _ h ih => exact ih.trans h.grown

theorem grown_of_passes (h : Relation.ReflTransGen S.Passes m m') :
    m.scopes.Grown m'.scopes := by
  induction h with
  | refl => exact .refl _
  | tail _ h ih =>
    cases h with
    | work h => exact ih.trans h.grown
    | block | body => exact ih.trans (.enter ..)

theorem stocked_of_passes (h : Relation.ReflTransGen S.Passes m m') (hm : S.Stocked m) :
    S.Stocked m' := by
  induction h with
  | refl => exact hm
  | tail _ h ih => exact h.stocked ih

theorem passes_of_works (h : Relation.ReflTransGen S.Works m m') :
    Relation.ReflTransGen S.Passes m m' :=
  Relation.ReflTransGen.mono (fun _ _ => Passes.work) _ _ h

/-! ## Programs -/

/-- Fields are declared in the outermost scope, in which execution is. -/
theorem effect_of_defineFields {x : Context} (hr : x.registry = r) (hx : S.Serves x) :
    ∀ {fields : List Typed.Field} {m m' : Machine} {outcome : Except Error Unit},
      S.Stocked m → m.current = Machine.root →
      (x.defineFields fields).run m = some (outcome, m') →
      ∃ declared, S.Effect (.executing declared) m m'
  | [], m, _, _, _, _, hrun => by
    obtain ⟨-, rfl⟩ := run_pure_eq_some.1 hrun
    exact ⟨[], .evaluate (.rest _)⟩
  | field :: fields, m, m', outcome, hm, hroot, hrun => by
    unfold Context.defineFields at hrun
    rcases run_bind_eq_some.1 hrun with ⟨v, m₁, hv, hrun⟩ | ⟨e, hv, -⟩
    · obtain ⟨heffect, hgood⟩ := evaluates_initialValue hr hx field.value hm _ _ hv
      have hroot₁ := heffect.kept.current.trans hroot
      rw [run_get_bind, run_lift_bind] at hrun
      split at hrun
      · rename_i m₂ hdef
        rw [run_set_bind] at hrun
        obtain ⟨scopes, hscopes, rfl⟩ := Machine.defineVariable_eq_ok.1 hdef
        rw [← hroot₁] at hscopes
        have hdeclare : S.Effect (.executing [_]) m₁ _ := .declare (hgood _ rfl) hscopes
        obtain ⟨_, hrest⟩ := effect_of_defineFields hr hx
          (hdeclare.stocked (heffect.stocked hm)) hroot₁ hrun
        exact ⟨_, .andThen (.evaluate heffect) (.andThen hdeclare hrest)⟩
      · cases hrun
        exact ⟨[], .evaluate heffect⟩
    · exact ⟨[], .evaluate (evaluates_initialValue hr hx field.value hm _ _ hv).1⟩

theorem works_defineMethods : ∀ {methods : List Typed.Method} {m m' : Machine}
    {outcome : Except Error Unit},
    (∀ method ∈ methods,
      S.bound (method.function.name, method.parameters.length) (.method method Machine.root)) →
    (Context.defineMethods methods).run m = some (outcome, m') → Relation.ReflTransGen S.Works m m'
  | [], m, _, _, _, hrun => by
    obtain ⟨-, rfl⟩ := run_pure_eq_some.1 hrun
    exact .refl
  | method :: methods, m, m', _, hbound, hrun => by
    rw [List.forall_mem_cons] at hbound
    unfold Context.defineMethods at hrun
    rw [run_get_bind, run_lift_bind] at hrun
    split at hrun
    · rename_i m₁ hdef
      rw [run_set_bind] at hrun
      exact .head (.register hbound.1 hdef) (works_defineMethods hbound.2 hrun)
    · cases hrun
      exact .refl

/-- Whatever the outcome of a program, its run is back in the outermost scope. -/
theorem works_run {budget : Budget} {p : Typed.Program} {outcome : Except Error Value}
    (hm : S.Stocked m) (hroot : m.current = Machine.root) (hp : S.Admits p)
    (hrun : (run r budget p).run m = some (outcome, m')) : Relation.ReflTransGen S.Works m m' := by
  have hserves : S.Serves (.within r budget) := S.serves_within budget
  unfold run Context.run at hrun
  rcases run_bind_eq_some.1 hrun with ⟨_, m₁, hf, hrun⟩ | ⟨e, hf, -⟩
  · obtain ⟨_, heffect⟩ := effect_of_defineFields rfl hserves hm hroot hf
    have hfields : Relation.ReflTransGen S.Works m m₁ := .single (.effect heffect)
    rcases run_bind_eq_some.1 hrun with ⟨_, m₂, hms, hrun⟩ | ⟨e, hms, -⟩
    · have hmethods := works_defineMethods hp hms
      have hm₂ := stocked_of_works (hfields.trans hmethods) hm
      rw [run_get_bind, run_lift_bind] at hrun
      split at hrun
      · rename_i main hmain
        obtain ⟨heffect, -⟩ := evaluates_invoke hserves (Arena.Fills.lookupFunction hm₂ hmain)
          (fun _ h => absurd h List.not_mem_nil) hm₂ _ _ hrun
        exact (hfields.trans hmethods).tail (.effect heffect)
      · cases hrun
        exact hfields.trans hmethods
    · exact hfields.trans (works_defineMethods hp hms)
  · obtain ⟨_, heffect⟩ := effect_of_defineFields rfl hserves hm hroot hf
    exact .single (.effect heffect)

/-! ## Parts -/

/-- What a run passes through on its way to one of its parts. -/
theorem Covers.passes_part {a b : Moment} (ha : S.Covers a) (h : Moment.Part r rounds a b) :
    Relation.ReflTransGen S.Passes a.machine b.machine ∧ S.Suits b.machine b.task := by
  obtain ⟨hm, hsuits⟩ := ha
  have hserves (d : Nat) : S.Serves (.within r ⟨d, rounds⟩) := S.serves_within _
  cases h with
  | inner | left | receiver | arguments | methodReceiver | first | expression | declared | assigned
  | object | condition | items | loopCondition | returned | head | fieldValue =>
    exact ⟨.refl, trivial⟩
  | right h | methodArguments h | rest h | memberValue h =>
    exact ⟨.single (.work (.effect (evaluates_evaluate rfl (hserves _) _ hm _ _ h).1)), trivial⟩
  | called h hf =>
    obtain ⟨heffect, hvalues⟩ := evaluates_evaluateAll rfl (hserves _) _ hm _ _ h
    exact ⟨.single (.work (.effect heffect)),
      ⟨_, (heffect.stocked hm).lookupFunction hf⟩, hvalues _ rfl⟩
  | methodCalled h hs hf =>
    obtain ⟨heffect, hv⟩ := evaluates_evaluate rfl (hserves _) _ hm _ _ h
    have hm₁ := heffect.stocked hm
    obtain ⟨heffect', hvalues⟩ := evaluates_evaluateAll rfl (hserves _) _ hm₁ _ _ hs
    refine ⟨.tail (.single (.work (.effect heffect))) (.work (.effect heffect')), ?_,
      List.forall_mem_cons.2 ⟨hv _ rfl, hvalues _ rfl⟩⟩
    rcases (heffect'.stocked hm₁).resolveMethod hf with ⟨_, -, hbound⟩ | ⟨_, _, -, -, hbody⟩
    · exact ⟨_, hbound⟩
    · cases hbody
  | body hl h =>
    obtain ⟨⟨_, hbound⟩, hvalues⟩ := hsuits
    obtain ⟨_, heffect, -⟩ := executes_defineParameters hvalues (hm.entered _) _ _ h
    exact ⟨.tail (.single (.body hbound _)) (.work (.effect heffect)), trivial⟩
  | thenBody h | elseBody h | loopBody h =>
    have heffect := (evaluates_condition rfl (hserves _) _ hm _ _ h).1
    exact ⟨.tail (.single (.work (.effect heffect))) (.block _), trivial⟩
  | allItems h hv =>
    obtain ⟨heffect, hgood⟩ := evaluates_evaluate rfl (hserves _) _ hm _ _ h
    exact ⟨.single (.work (.effect heffect)), S.good_item (hgood _ rfl) hv⟩
  | round h =>
    obtain ⟨_, heffect, -⟩ := executes_defineVariable (hsuits _ (.head _)) _ _ h
    exact ⟨.tail (.single (.block _)) (.work (.effect heffect)), trivial⟩
  | nextRound h =>
    obtain ⟨_, heffect, -⟩ := executes_round (hsuits _ (.head _)) hm
      (fun _ hm => executes_executeBlock rfl (hserves _) _ hm) _ _ h
    exact ⟨.single (.work (.effect heffect)), fun item hmem => hsuits item (.tail _ hmem)⟩
  | loopAgain h hb =>
    have heffect := (evaluates_condition rfl (hserves _) _ hm _ _ h).1
    have hm₁ := heffect.stocked hm
    obtain ⟨_, heffect', -⟩ := executes_inBlock
      (executes_executeBlock rfl (hserves _) _ (hm₁.entered _)) _ _ hb
    exact ⟨.tail (.single (.work (.effect heffect))) (.work (.effect heffect')), trivial⟩
  | tail h =>
    obtain ⟨_, heffect, -⟩ := executes_execute rfl (hserves _) _ hm _ _ h
    exact ⟨.single (.work (.effect heffect)), trivial⟩
  | nextField h hdef =>
    obtain ⟨hroot, hadmits⟩ := hsuits
    obtain ⟨heffect, hv⟩ := evaluates_initialValue rfl (hserves _) _ hm _ _ h
    obtain ⟨scopes, hscopes, rfl⟩ := Machine.defineVariable_eq_ok.1 hdef
    have hroot₁ := heffect.kept.current.trans hroot
    rw [← hroot₁] at hscopes
    have hdeclare : S.Effect (.executing [_]) _ _ := .declare (hv _ rfl) hscopes
    exact ⟨.tail (.single (.work (.effect heffect))) (.work (.effect hdeclare)), hroot₁, hadmits⟩
  | main h hf =>
    have hworks := works_defineMethods hsuits.2 h
    have hbound := Arena.Fills.lookupFunction (stocked_of_works hworks hm) hf
    exact ⟨passes_of_works hworks, ⟨_, hbound⟩, fun _ h => absurd h List.not_mem_nil⟩

theorem Covers.part {a b : Moment} (ha : S.Covers a) (h : Moment.Part r rounds a b) :
    S.Covers b where
  stocked := stocked_of_passes (ha.passes_part h).1 ha.stocked
  suits := (ha.passes_part h).2

/-- A run goes from one of its moments to a later one by what its machine may pass through. -/
theorem Covers.passes {a b : Moment} (ha : S.Covers a)
    (h : Relation.ReflTransGen (Moment.Part r rounds) a b) :
    Relation.ReflTransGen S.Passes a.machine b.machine ∧ S.Covers b := by
  induction h with
  | refl => exact ⟨.refl, ha⟩
  | tail _ h ih => exact ⟨ih.1.trans (ih.2.passes_part h).1, ih.2.part h⟩

end Stock

end TypedImp
