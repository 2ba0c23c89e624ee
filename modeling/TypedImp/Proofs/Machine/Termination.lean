import TypedImp.Proofs.Machine.Ending
import TypedImp.Proofs.Machine.Globals
import TypedImp.Proofs.Machine.Over
import TypedImp.Proofs.Machine.Passage

/-!
# Programs that end

In a program without loops whose methods do not call themselves, every call is one of an earlier
method. What is found at run time under a name and a number of arguments is the method that was
checked, so the place of a method in the program bounds how deep calls nest in it, and a run ends
within any budget that allows for as many nested calls as there are methods (`run_ends`).
-/

namespace TypedImp

open Exec

/-- What is bound in a run of a program with these methods. -/
inductive Bound (methods : List Typed.Method) : String × Nat → Callable → Prop
  | print (key : String × Nat) : Bound methods key .print
  | method {method : Typed.Method} (h : method ∈ methods) :
      Bound methods method.key (.method method Machine.root)

/-- The values of a run without objects, and what is bound in it. -/
def Stock.bare (methods : List Typed.Method) : Stock .builtin :=
  .over [] (Bound methods) Registry.keeps_builtin fun _ _ h => nomatch h

variable {methods : List Typed.Method} {m : Machine}

theorem members_of_bare (v : Value) (hv : (Stock.bare methods).good v) : v.members = none := by
  refine Option.eq_none_iff_forall_ne_some.2 fun s hs => ?_
  exact absurd (Value.Over.members hv hs) List.not_mem_nil

theorem Bound.mem {key : String × Nat} {method : Typed.Method} {closure : ScopeId}
    (h : Bound methods key (.method method closure)) : method ∈ methods ∧ method.key = key := by
  cases h with
  | method hmem => exact ⟨hmem, rfl⟩

theorem stocked_of_prepared {gs : List Global} (h : Machine.Prepared gs m)
    (hg : ∀ g ∈ gs, g.value.Over []) : (Stock.bare methods).Stocked m := by
  induction h with
  | initial => exact Machine.fills_initial (.print _)
  | redirect sink _ ih => exact Arena.Fills.bindFunction (ih hg) _ (.print _)
  | define _ ok ih =>
    rw [List.forall_mem_cons] at hg
    obtain ⟨scopes, hscopes, rfl⟩ := Machine.defineVariable_eq_ok.1 ok
    exact Arena.Fills.defineVariable (ih hg.2) hg.1 hscopes

/-! ## Calls -/

/-- For calls of these methods, it is enough if as many may nest as there are methods here. -/
theorem answers_callMethod (hl : Layered methods) (rounds rounds' depth depth' : Nat)
    {earlier : List Typed.Method} (hs : earlier <:+ methods) (hd : earlier.length ≤ depth)
    (hd' : earlier.length ≤ depth') :
    (Stock.bare methods).Answers (Offered earlier)
      ⟨.builtin, callMethod .builtin rounds depth, rounds⟩
      ⟨.builtin, callMethod .builtin rounds' depth', rounds'⟩ := by
  refine ⟨rfl, rfl, members_of_bare, Stock.serves_callMethod _ rounds depth, ?_⟩
  rintro _ method _ values m hkey (_ | hmem) hvalues hm
  obtain ⟨older, hfound⟩ := hl.find hs hmem hkey
  have hlength := hfound.length_le
  rw [List.length_cons] at hlength
  -- the called method is earlier still than its caller, so there is a call left for it
  match depth, depth' with
  | 0, _ | _, 0 => omega
  | depth + 1, depth' + 1 =>
    obtain ⟨hfollows, -⟩ := hl.of_suffix (hfound.trans hs)
    have hnext := answers_callMethod hl rounds rounds' depth depth'
      ((List.suffix_cons ..).trans (hfound.trans hs)) (by omega) (by omega)
    exact Stock.endAlike_callMethod hnext hfollows.loopless hfollows.calls _ hvalues hm

theorem admits_bare (t : Typed.Program) : (Stock.bare t.methods.reverse).Admits t :=
  fun _ hmem => .method (List.mem_reverse.2 hmem)

/-- Two budgets that allow for as many nested calls as there are methods make no difference. -/
theorem endAlike_run {t : Typed.Program} (hl : t.Layered) {budget budget' : Budget}
    (hd : t.methods.length ≤ budget.depth) (hd' : t.methods.length ≤ budget'.depth)
    (hm : (Stock.bare t.methods.reverse).Stocked m) (hroot : m.current = Machine.root) :
    EndAlike (run .builtin budget t) (run .builtin budget' t) m := by
  have hserves := (Stock.bare t.methods.reverse).serves_within budget
  have hnone := answers_callMethod hl.methods budget.rounds budget'.rounds budget.depth
    budget'.depth List.nil_suffix (Nat.zero_le _) (Nat.zero_le _)
  have hall := answers_callMethod hl.methods budget.rounds budget'.rounds budget.depth
    budget'.depth (List.suffix_refl _) (by rwa [List.length_reverse])
    (by rwa [List.length_reverse])
  unfold run Context.run
  refine endAlike_bind (Stock.endAlike_defineFields hnone t.fields hl.fields hm) fun _ m₁ hf => ?_
  obtain ⟨_, heffect⟩ := Stock.effect_of_defineFields rfl hserves hm hroot hf
  refine endAlike_bind (endAlike_defineMethods t.methods) fun _ m₂ hms => ?_
  have hmethods := Stock.works_defineMethods (admits_bare t) hms
  have hm₂ := Stock.stocked_of_works hmethods (heffect.stocked hm)
  refine endAlike_get_bind (endAlike_lift_bind fun main hmain => ?_)
  have hbound := Arena.Fills.lookupFunction hm₂ hmain
  cases main with
  | body body => exact endAlike_lift (body [])
  | print => exact endAlike_print []
  | method method closure => exact hall.call (.inr ⟨method, hbound.mem⟩) hbound nofun hm₂

/-! ## Nested calls -/

/-- What a task calls without a receiver, apart from what its calls do. -/
def Task.calls : Task → List (String × Nat)
  | .expr e => e.calls
  | .exprs es => Typed.exprsCalls es
  | .stmt s => s.calls
  | .block ss | .rounds _ _ ss => Typed.blockCalls ss
  | .body method _ _ => [method.key]
  | .program p => p.fields.flatMap Typed.Field.calls

namespace Moment

/-- In a run within this depth, the deeper calls are nested, the fewer methods can be called. -/
structure Ranked (methods : List Typed.Method) (depth : Nat) (a : Moment) : Prop where
  layer : ∃ earlier, earlier <:+ methods ∧ depth + earlier.length ≤ a.depth + methods.length ∧
    ∀ key ∈ a.task.calls, Offered earlier key
  outer : ∀ p, a.task = .program p → depth ≤ a.depth

variable {depth rounds : Nat} {a b : Moment}

theorem Ranked.of_subset (ha : a.Ranked methods depth) (hd : b.depth = a.depth)
    (hcalls : b.task.calls ⊆ a.task.calls) (hp : ∀ p, b.task ≠ .program p) :
    b.Ranked methods depth where
  layer := by
    obtain ⟨earlier, hs, hle, h⟩ := ha.layer
    exact ⟨earlier, hs, hd ▸ hle, fun key hkey => h key (hcalls hkey)⟩
  outer p h := (hp p h).elim

/-- A method is called from a later one only. -/
theorem Ranked.part (hl : Layered methods) (hc : (Stock.bare methods).Covers a)
    (ha : a.Ranked methods depth) (h : Part .builtin rounds a b) : b.Ranked methods depth := by
  have hb := (hc.part h).stocked
  cases h with
  | called h hf =>
    obtain ⟨-, hkey⟩ := (hb.lookupFunction hf).mem
    rw [length_of_evaluateAll h] at hkey
    exact ha.of_subset rfl (by simp [Task.calls, Typed.Expr.calls, hkey]) (by rintro _ ⟨⟩)
  | methodCalled h hs hf =>
    have hv := (Stock.evaluates_evaluate rfl (Stock.serves_within _ _) _ hc.stocked _ _ h).2 _ rfl
    rcases hb.resolveMethod hf with ⟨members, hmembers, -⟩ | ⟨_, _, -, -, hbody⟩
    · rw [members_of_bare _ hv] at hmembers
      cases hmembers
    · cases hbody
  | body hlength h =>
    obtain ⟨earlier, hs, hle, hoffered⟩ := ha.layer
    obtain ⟨⟨key, hbound⟩, -⟩ := hc.suits
    obtain ⟨older, hfound⟩ := hl.find hs hbound.mem.1 (hoffered _ (.head _))
    obtain ⟨hfollows, -⟩ := hl.of_suffix (hfound.trans hs)
    have hlength := hfound.length_le
    rw [List.length_cons] at hlength
    refine ⟨⟨older, (List.suffix_cons ..).trans (hfound.trans hs), ?_, hfollows.calls⟩,
      by rintro _ ⟨⟩⟩
    dsimp only at hle ⊢
    omega
  | main h hf =>
    obtain ⟨hmem, -⟩ := (Arena.Fills.lookupFunction hb hf).mem
    have hle := ha.outer _ rfl
    refine ⟨⟨methods, List.suffix_refl _, Nat.add_le_add_right hle _, ?_⟩, by rintro _ ⟨⟩⟩
    exact List.forall_mem_singleton.2 (.inr ⟨_, hmem, rfl⟩)
  | nextField h hdef =>
    obtain ⟨earlier, hs, hle, hoffered⟩ := ha.layer
    refine ⟨⟨earlier, hs, hle, fun key hkey => hoffered key ?_⟩, fun _ _ => ha.outer _ rfl⟩
    exact List.mem_append_right _ hkey
  | inner | left | right | receiver | arguments | methodReceiver | methodArguments | first | rest
  | expression | declared | assigned | object | memberValue | condition | thenBody | elseBody
  | items | allItems | round | nextRound | loopCondition | loopBody | loopAgain | returned
  | head | tail | fieldValue =>
    exact ha.of_subset rfl (by simp [Task.calls, Typed.Expr.calls, Typed.exprsCalls,
      Typed.Stmt.calls, Typed.blockCalls, Typed.Field.calls]) (by rintro _ ⟨⟩)

theorem Ranked.parts (hl : Layered methods) (hc : (Stock.bare methods).Covers a)
    (ha : a.Ranked methods depth) (h : Relation.ReflTransGen (Part .builtin rounds) a b) :
    b.Ranked methods depth := by
  induction h with
  | refl => exact ha
  | tail hparts h ih => exact ih.part hl (hc.passes hparts).2 h

end Moment

theorem ranked_program {t : Typed.Program} (hl : t.Layered) (depth : Nat) (m : Machine) :
    Moment.Ranked t.methods.reverse depth ⟨depth, .program t, m⟩ where
  layer := by
    refine ⟨[], List.nil_suffix, Nat.le_add_right _ _, fun key hkey => ?_⟩
    obtain ⟨field, hmem, hkey⟩ := List.mem_flatMap.1 hkey
    exact hl.fields field hmem key hkey
  outer _ _ := Nat.le_refl _

/-! ## Programs -/

theorem offers_withGlobals (gs : List Global) :
    Offers (Environment.withGlobals gs).functions [] := by
  have hget (key : String × Nat) : (Environment.withGlobals gs).functions.get? key =
      if key = ("print", 1) then some Checker.print else none := by
    rw [Environment.functions_withGlobals, Environment.initial, Table.get?_cons]
    rfl
  refine ⟨fun key f hf => ?_, fun key => ?_⟩
  · rw [hget] at hf
    split_ifs at hf with hkey
    cases hf
    exact hkey
  · rw [hget]
    simp [Offered]

/-- A checked program without loops, whose methods do not call themselves, ends: any budget that
allows for as many nested calls as there are methods gives the one outcome. However many calls a
budget allows for, no more than that are ever nested. Variables that were defined for the program
may have any values without objects. -/
theorem run_ends {gs gs' : List Global} {c : Checker} {m : Machine} {p : Source.Program}
    {t : Typed.Program} (hc : Checker.Prepared gs c) (hm : Machine.Prepared gs' m)
    (hg : ∀ g ∈ gs', g.value.Over [])
    (ht : ((Typing.checkProgram .builtin p).run c).1 = .ok t)
    (hd : ∀ method ∈ p.methods, method.Direct) :
    (∃ outcome m', ∀ budget : Budget, p.methods.length ≤ budget.depth →
      (run .builtin budget t).run m = some (outcome, m')) ∧
    ∀ (budget : Budget) (moment : Moment),
      Relation.ReflTransGen (Moment.Part .builtin budget.rounds) ⟨budget.depth, .program t, m⟩
        moment → budget.depth ≤ moment.depth + p.methods.length := by
  obtain ⟨hsees, -⟩ := hc.sees
  obtain ⟨frame, hframes, -⟩ := Environment.frames_withGlobals gs
  have htyped : ProgramTyped .builtin (.withGlobals gs) p t := by
    rw [← Typing.gives_checkProgram .builtin hsees (by rw [hframes]; rfl)]
    exact Typing.run_eq_ok.1 ht
  obtain ⟨hl, hlength⟩ := layered_of_programTyped htyped (offers_withGlobals gs) hd
  have hstocked : (Stock.bare t.methods.reverse).Stocked m := stocked_of_prepared hm hg
  have hroot := hm.scopes.1
  rw [← hlength]
  constructor
  · have hend (budget : Budget) (h : t.methods.length ≤ budget.depth) :=
      endAlike_run hl (Nat.le_refl _ : _ ≤ (⟨t.methods.length, 0⟩ : Budget).depth) h hstocked hroot
    obtain ⟨⟨outcome, m'⟩, hrun, -⟩ := hend ⟨t.methods.length, 0⟩ (Nat.le_refl _)
    refine ⟨outcome, m', fun budget h => ?_⟩
    obtain ⟨result, hleast, hresult⟩ := hend budget h
    rw [hresult, ← hleast, hrun]
  · intro budget moment hparts
    have hcovers : (Stock.bare t.methods.reverse).Covers ⟨budget.depth, .program t, m⟩ :=
      ⟨hstocked, hroot, admits_bare t⟩
    obtain ⟨⟨earlier, -, hle, -⟩, -⟩ :=
      (ranked_program hl budget.depth m).parts hl.methods hcovers hparts
    rw [List.length_reverse] at hle
    omega

/-- Of two methods of one name, the later one calls the earlier one for every item. -/
def Source.Program.overloads : Source.Program where
  fields := []
  methods :=
    [⟨"show", ["n"], ["Integer"], none, [.expression (.call "print" [.var "n"])]⟩,
     ⟨"show", ["n", "k"], ["Integer", "Integer"], none,
      [.expression (.call "show" [.var "n"]), .expression (.call "show" [.var "k"])]⟩,
     ⟨"main", [], [], some "Integer",
      [.each "i" (.var "items") [.expression (.call "show" [.var "i", .var "i"])],
       .ret (.literal (.integer 0))]⟩]

theorem run_ends_overloads : ∃ c m t,
    Checker.initial.defineVariable (.plain "items" .integerIterable) = .ok c ∧
    Machine.initial.defineVariable "items" (.of (.sequence [.integer 1, .integer 2])) = .ok m ∧
    ((Typing.checkProgram .builtin .overloads).run c).1 = .ok t ∧
    (∃ outcome m', ∀ budget : Budget, 3 ≤ budget.depth →
      (run .builtin budget t).run m = some (outcome, m')) ∧
    ∀ (budget : Budget) (moment : Moment),
      Relation.ReflTransGen (Moment.Part .builtin budget.rounds) ⟨budget.depth, .program t, m⟩
        moment → budget.depth ≤ moment.depth + 3 := by
  have hok : (Checker.initial.defineVariable (.plain "items" .integerIterable) >>= fun c =>
      ((Typing.checkProgram .builtin .overloads).run c).1).isOk = true := by
    decide +kernel
  obtain ⟨t, ht⟩ := exists_of_isOk hok
  obtain ⟨c, hc, ht⟩ := bind_eq_ok.1 ht
  let items : Global := ⟨.plain "items" .integerIterable, .of (.sequence [.integer 1, .integer 2])⟩
  refine ⟨c, _, t, hc, rfl, ht,
    run_ends (.define .initial (g := items) hc) (.define .initial (g := items) rfl) ?_ ht ?_⟩
  · refine List.forall_mem_singleton.2 (.mk (fun _ h => nomatch h) ?_)
    rintro _ ⟨⟩
    rw [List.forall_mem_cons, List.forall_mem_singleton]
    exact ⟨Value.over_of _ nofun, Value.over_of _ nofun⟩
  · intro method hmem
    simp only [Source.Program.overloads, List.mem_cons, List.not_mem_nil, or_false] at hmem
    rcases hmem with rfl | rfl | rfl
    all_goals exact ⟨by simp [Source.BlockLoopless, Source.Stmt.Loopless],
      by simp [Source.blockCalls, Source.Stmt.calls, Source.Expr.calls, Source.exprsCalls]⟩

end TypedImp
