import TypedImp.Proofs.Typing.Statement
import TypedImp.Typing.Program

/-!
# The checker decides the typing rules

A check that stands outside of all methods accepts exactly the programs that the rules accept
there (`gives_checkProgram`). So `check` gives a decorated program if and only if the rules derive
it, and they derive no other one (`check_decides`). They would derive more if every decimal that
rounds to a finite double were a literal (`finite_literal_refused`).
-/

namespace TypedImp

/-- What a program knows that sees no more than `print`. -/
def Environment.initial : Environment where
  frames := [[]]
  functions := [(("print", 1), Checker.print)]
  result := none

namespace Typing

open Check

variable {r : Registry} {c c' : Checker} {env : Environment}

theorem sees_initial : Checker.initial.Sees .initial where
  path := by
    refine ⟨[(Checker.root, (Scope.empty none).bindFunction "print" 1 Checker.print)],
      .root rfl rfl, rfl, fun key => ?_⟩
    rw [List.findSome?_singleton]
    rfl
  keyed := by
    intro key f hf
    rw [Environment.initial, Table.get?_cons] at hf
    split_ifs at hf with hk
    · cases hf
      exact hk
    · cases hf
  result := rfl

/-! ## Fields -/

theorem gives_checkField (hr : r.Reachable) (h : c.Sees env) {f : Source.Field}
    {f' : Typed.Field} :
    Gives (checkField r f) c f' c' ↔
      DeclarationTyped r env f.name f.type f.value f'.target f'.value ∧
        c.declare f'.target = c' := by
  simp only [checkField, gives_bind, Prod.exists, gives_checkDeclaration hr h, gives_pure]
  constructor
  · rintro ⟨target, value, _, ⟨hd, rfl⟩, rfl, rfl⟩
    exact ⟨hd, rfl⟩
  · rintro ⟨hd, rfl⟩
    exact ⟨_, _, _, ⟨hd, rfl⟩, rfl, rfl⟩

theorem gives_checkFields (hr : r.Reachable) : ∀ (fs : List Source.Field) {fs' : List Typed.Field}
    {c c' : Checker} {env : Environment}, c.Sees env →
    (Gives (fs.mapM (checkField r)) c fs' c' ↔
      FieldsTyped r env fs fs' ∧ c.declareAll (fs'.map (·.target)) = c')
  | [], fs', c, c', env, h => by
    rw [List.mapM_nil, gives_pure]
    constructor
    · rintro ⟨rfl, rfl⟩
      exact ⟨.nil, rfl⟩
    · rintro ⟨ht, rfl⟩
      cases ht
      exact ⟨rfl, rfl⟩
  | f :: fs, fs', c, c', env, h => by
    simp only [List.mapM_cons, gives_bind, gives_checkField hr h, gives_pure]
    constructor
    · rintro ⟨f', _, ⟨hf, rfl⟩, fs', _, hs, rfl, rfl⟩
      rw [gives_checkFields hr fs (h.declare _)] at hs
      exact ⟨.cons hf hs.1, hs.2⟩
    · rintro ⟨ht, rfl⟩
      cases ht with
      | cons hf hs =>
        exact ⟨_, _, ⟨hf, rfl⟩, _, _, (gives_checkFields hr fs (h.declare _)).2 ⟨hs, rfl⟩, rfl, rfl⟩

/-! ## Methods -/

theorem gives_typesNamed : ∀ (names : List String) {types : List TypeId} {c c' : Checker},
    Gives (names.mapM fun name => (r.typeNamed name : Check TypeId)) c types c' ↔
      List.Forall₂ (fun name type => r.typeNamed? name = some type) names types ∧ c = c'
  | [], types, c, c' => by
    rw [List.mapM_nil, gives_pure, List.forall₂_nil_left_iff, eq_comm (a := types)]
  | name :: names, types, c, c' => by
    simp only [List.mapM_cons, gives_bind, gives_lift, typeNamed_eq_ok, gives_pure,
      List.forall₂_cons_left_iff]
    constructor
    · rintro ⟨type, _, ⟨ht, rfl⟩, types, _, hs, rfl, rfl⟩
      rw [gives_typesNamed names] at hs
      exact ⟨⟨type, types, ht, hs.1, rfl⟩, hs.2⟩
    · rintro ⟨⟨type, types, ht, hs, rfl⟩, rfl⟩
      exact ⟨type, c, ⟨ht, rfl⟩, types, c, (gives_typesNamed names).2 ⟨hs, rfl⟩, rfl, rfl⟩

theorem resultNamed_iff {name : Option String} {type : TypeId} :
    name.elim (.ok .nil) r.typeNamed = .ok type ↔ ResultNamed r name type := by
  cases name with
  | none =>
    constructor
    · rintro ⟨⟩
      exact .none
    · rintro ⟨⟩
      rfl
  | some name =>
    rw [Option.elim_some, typeNamed_eq_ok]
    constructor
    · exact .some
    · rintro (_ | h)
      exact h

theorem gives_defineParameters {u : Unit} : ∀ {names : List String} {types : List TypeId}
    {c c' : Checker} {env : Environment}, c.Sees env → names.length = types.length →
    (Gives (defineParameters names types) c u c' ↔
      (names.Nodup ∧ ∀ name ∈ names, env.Fresh name) ∧
        c.declareAll (List.zipWith .plain names types) = c')
  | [], [], c, c', env, _, _ => by
    simp [defineParameters, gives_pure, Checker.declareAll]
  | name :: names, type :: types, c, c', env, h, hl => by
    have ih := @gives_defineParameters u names types _ c' _ (h.declare (.plain name type))
      (Nat.succ.inj hl)
    simp only [defineParameters, gives_bind, gives_define h]
    constructor
    · rintro ⟨_, _, ⟨hf, rfl⟩, hs⟩
      obtain ⟨⟨hd, hfs⟩, hc⟩ := ih.1 hs
      refine ⟨⟨List.nodup_cons.2 ⟨fun hn => ?_, hd⟩, ?_⟩, hc⟩
      · exact ((Environment.fresh_declare h.frames_ne_nil).1 (hfs name hn)).1 rfl
      · rintro n (_ | ⟨_, hn⟩)
        · exact hf
        · exact ((Environment.fresh_declare h.frames_ne_nil).1 (hfs n hn)).2
    · rintro ⟨⟨hd, hfs⟩, hc⟩
      rw [List.nodup_cons] at hd
      refine ⟨(), _, ⟨hfs name (.head _), rfl⟩, ih.2 ⟨⟨hd.2, fun n hn => ?_⟩, hc⟩⟩
      refine (Environment.fresh_declare h.frames_ne_nil).2 ⟨?_, hfs n (.tail _ hn)⟩
      rintro rfl
      exact hd.1 hn

theorem gives_defineFunction_outer (h : c.Sees env) (houter : env.frames.length = 1) {f : Function}
    {u : Unit} : Gives (Check.defineFunction f) c u c' ↔
      env.findFunction? f.name f.arity = none ∧ c.declareFunction f = c' := by
  obtain ⟨l, hl, hframes, hfuns⟩ := h.path
  obtain ⟨scope, up, rfl, live⟩ := hl.head
  rw [← hframes, List.length_map] at houter
  obtain rfl : up = [] := by simpa using houter
  rw [gives_defineFunction, Environment.findFunction?, ← hfuns, live, List.findSome?_singleton,
    eq_comm (a := c')]
  simp [Checker.declareFunction]

theorem gives_parametersAndBody (hr : r.Reachable) (h : c.Sees env) {names : List String}
    {types : List TypeId} (hl : names.length = types.length) {ss : List Source.Stmt}
    {ts : List Typed.Stmt} :
    Gives (inScope do defineParameters names types; checkBlock r ss) c ts c' ↔
      (names.Nodup ∧ BlockTyped r (env.nest.declareAll (List.zipWith .plain names types)) ss ts) ∧
        c = c' := by
  have hfresh : ∀ name ∈ names, env.nest.Fresh name := fun name _ => env.fresh_nest name
  refine @gives_inScope_of _ _ _ _ _ _ (List.zipWith .plain names types ++ declarations ts)
    fun {c₁} => ?_
  simp only [gives_bind, gives_defineParameters h.entered hl, Checker.declareAll_append]
  constructor
  · rintro ⟨_, _, ⟨⟨hd, -⟩, rfl⟩, hs⟩
    rw [gives_checkBlock hr ss (h.entered.declareAll _)] at hs
    exact ⟨⟨hd, hs.1⟩, hs.2⟩
  · rintro ⟨⟨hd, hs⟩, hc⟩
    exact ⟨(), _, ⟨⟨hd, hfresh⟩, rfl⟩,
      (gives_checkBlock hr ss (h.entered.declareAll _)).2 ⟨hs, hc⟩⟩

theorem declareAll_withResult (result : Option TypeId) : ∀ (vs : List Variable) (env : Environment),
    ({ env with result } : Environment).declareAll vs = { env.declareAll vs with result }
  | [], _ => rfl
  | v :: vs, env => declareAll_withResult result vs (env.declare v)

theorem sees_withResult (h : c.Sees env) (result : Option TypeId) :
    ({ c with result } : Checker).Sees { env with result } :=
  ⟨h.path, h.keyed, rfl⟩

theorem gives_methodBody (hr : r.Reachable) (h : c.Sees env) (houter : env.frames.length = 1)
    {f : Function} {names : List String} (hl : names.length = f.parameters.length)
    {ss : List Source.Stmt} {ts : List Typed.Stmt} :
    Gives (inMethod f.result (inScope do defineParameters names f.parameters; checkBlock r ss))
        (c.declareFunction f) ts c' ↔
      (names.Nodup ∧ BlockTyped r (env.ofMethod f names) ss ts) ∧ c.declareFunction f = c' := by
  have hsees := sees_withResult (h.declareFunction houter f) (some f.result)
  have henv : Environment.declareAll _ (List.zipWith .plain names f.parameters) =
      env.ofMethod f names := declareAll_withResult (some f.result) _ (env.declareFunction f).nest
  have hscope := fun {c'} => @gives_parametersAndBody r _ c' _ hr hsees names f.parameters hl ss ts
  rw [gives_inMethod]
  constructor
  · rintro ⟨c₁, hb, rfl⟩
    obtain ⟨ht, rfl⟩ := hscope.1 hb
    exact ⟨henv ▸ ht, rfl⟩
  · rintro ⟨ht, rfl⟩
    exact ⟨_, hscope.2 ⟨henv ▸ ht, rfl⟩, rfl⟩

theorem gives_checkMethod (hr : r.Reachable) (h : c.Sees env) (houter : env.frames.length = 1)
    {m : Source.Method} {m' : Typed.Method} :
    Gives (checkMethod r m) c m' c' ↔
      MethodTyped r env m m' ∧ c.declareFunction m'.function = c' := by
  unfold checkMethod
  constructor
  · intro hm
    split at hm
    · simp [gives_throw] at hm
    · rename_i hl
      simp only [gives_bind, gives_typesNamed, gives_lift, resultNamed_iff,
        gives_pure] at hm
      obtain ⟨types, _, ⟨named, rfl⟩, result, _, ⟨hres, rfl⟩, _, _, hdef, body, _, hb, rfl, rfl⟩ :=
        hm
      rw [gives_defineFunction_outer h houter] at hdef
      obtain ⟨fresh, rfl⟩ := hdef
      have hlen : m.parameters.length = types.length :=
        (not_not.1 hl).trans named.length_eq
      obtain ⟨⟨distinct, ht⟩, hc⟩ :=
        (gives_methodBody (f := .plain m.name types result) hr h houter hlen).1 hb
      exact ⟨.mk (not_not.1 hl) named hres fresh distinct ht, hc⟩
  · rintro ⟨hm, rfl⟩
    cases hm with
    | @mk types result body counts named hres fresh distinct hb =>
      rw [if_neg (not_not.2 counts)]
      simp only [gives_bind, gives_typesNamed, gives_lift, resultNamed_iff, gives_pure]
      have hlen : m.parameters.length = types.length := counts.trans named.length_eq
      exact ⟨types, c, ⟨named, rfl⟩, result, c, ⟨hres, rfl⟩, (), _,
        (gives_defineFunction_outer h houter).2 ⟨fresh, rfl⟩, body, _,
        (gives_methodBody hr h houter hlen).2 ⟨⟨distinct, hb⟩, rfl⟩, rfl, rfl⟩

theorem gives_checkMethods (hr : r.Reachable) : ∀ (ms : List Source.Method)
    {ms' : List Typed.Method} {c : Checker} {env : Environment}, c.Sees env →
    env.frames.length = 1 →
    ((∃ c', Gives (ms.mapM (checkMethod r)) c ms' c') ↔ MethodsTyped r env ms ms')
  | [], ms', c, env, h, _ => by
    simp only [List.mapM_nil, gives_pure]
    constructor
    · rintro ⟨c', rfl, rfl⟩
      exact .nil
    · intro ht
      cases ht
      exact ⟨c, rfl, rfl⟩
  | m :: ms, ms', c, env, h, houter => by
    have ih := fun {m' ms'} => @gives_checkMethods hr ms ms' _ _
      (h.declareFunction houter (Typed.Method.function m')) houter
    simp only [List.mapM_cons, gives_bind, gives_checkMethod hr h houter, gives_pure]
    constructor
    · rintro ⟨_, m', _, ⟨hm, rfl⟩, ms', _, hs, rfl, rfl⟩
      exact .cons hm (ih.1 ⟨_, hs⟩)
    · intro ht
      cases ht with
      | cons hm hs =>
        obtain ⟨c', hs⟩ := ih.2 hs
        exact ⟨c', _, _, ⟨hm, rfl⟩, _, _, hs, rfl, rfl⟩

/-! ## Programs -/

theorem startable_iff {p : Source.Program} :
    p.methods.any (isEntryPoint r) = true ↔ Startable r p := by
  simp only [List.any_eq_true, isEntryPoint, Bool.and_eq_true, decide_eq_true_eq,
    List.isEmpty_iff, Option.bind_eq_some_iff, and_assoc, Startable]
  rfl

theorem declareAll_outer : ∀ (vs : List Variable) {env : Environment},
    (env.declareAll vs).frames.length = env.frames.length
  | [], _ => rfl
  | v :: vs, env => (@declareAll_outer vs (env.declare v)).trans List.length_modifyHead

theorem gives_checkProgram (hr : r.Reachable) (h : c.Sees env) (houter : env.frames.length = 1)
    {p : Source.Program} {t : Typed.Program} :
    (∃ c', Gives (checkProgram r p) c t c') ↔ ProgramTyped r env p t := by
  unfold checkProgram
  constructor
  · rintro ⟨c', hp⟩
    split at hp
    · simp [gives_throw] at hp
    · rename_i hs
      simp only [gives_bind, gives_checkFields hr _ h, gives_pure] at hp
      obtain ⟨fields, _, ⟨hf, rfl⟩, methods, c₁, hm, rfl, rfl⟩ := hp
      refine .mk (startable_iff.1 (by simpa using hs)) hf ?_
      exact (gives_checkMethods hr _ (h.declareAll _) ((declareAll_outer _).trans houter)).1 ⟨_, hm⟩
  · intro hp
    cases hp with
    | mk start hf hm =>
      obtain ⟨c', hm⟩ := (gives_checkMethods hr _ (h.declareAll _)
        ((declareAll_outer _).trans houter)).2 hm
      rw [if_neg (by simp [startable_iff.2 start])]
      simp only [gives_bind, gives_checkFields hr _ h, gives_pure]
      exact ⟨c', _, _, ⟨hf, rfl⟩, _, _, hm, rfl, rfl⟩

theorem run_eq_ok {α : Type} {step : Check α} {a : α} :
    (step.run c).1 = .ok a ↔ ∃ c', Gives step c a c' := by
  constructor
  · intro h
    exact ⟨(step.run c).2, Prod.ext h rfl⟩
  · rintro ⟨c', h⟩
    exact congrArg Prod.fst h

theorem check_iff (hr : r.Reachable) {p : Source.Program} {t : Typed.Program} :
    check r p = .ok t ↔ ProgramTyped r .initial p t := by
  rw [check, run_eq_ok, gives_checkProgram hr sees_initial rfl]

/-- A decorated program is the outcome of a check if and only if the rules derive it, and the rules
derive at most one. -/
theorem check_decides (hr : r.Reachable) (p : Source.Program) :
    (∀ t, check r p = .ok t ↔ ProgramTyped r .initial p t) ∧
      ∀ t t', ProgramTyped r .initial p t → ProgramTyped r .initial p t' → t = t' := by
  refine ⟨fun t => check_iff hr, fun t t' ht ht' => ?_⟩
  rw [← check_iff hr] at ht ht'
  exact Except.ok.inj (ht.symm.trans ht')

/-- A program with a field, with a method that is called, and with members in a block. -/
def comparing : Source.Program where
  fields := [⟨"rate", none, some (.literal (.decimal ⟨15, 1⟩))⟩]
  methods :=
    [⟨"twice", ["n"], ["Integer"], some "Integer",
      [.ret (.binary (.arithmetic .add) (.var "n") (.var "n"))]⟩,
     ⟨"main", [], [], some "Integer",
      [.conditional
        (.binary (.relation .less) (.field (.literal (.string "ab")) "length")
          (.call "twice" [.literal (.integer 1)]))
        [.declaration "text" (some "Any") (some (.method (.var "rate") "stringify" [])),
         .expression (.call "print" [.var "text"])] [],
       .ret (.literal (.integer 0))]⟩]

theorem check_decides_comparing : ∃ t, check .builtin comparing = .ok t ∧
    t.fields.map (·.target.type) = [.decimal] ∧
    t.methods.map (·.function.parameters) = [[.integer], []] ∧
    ∀ t', ProgramTyped .builtin .initial comparing t' ↔ t' = t := by
  have hview : (check .builtin comparing).toOption.map (fun t =>
      (t.fields.map (·.target.type), t.methods.map (·.function.parameters))) =
        some ([.decimal], [[.integer], []]) := by
    decide +kernel
  obtain ⟨t, ht, hview⟩ := exists_of_view hview
  obtain ⟨hfields, hmethods⟩ := Prod.mk.inj hview
  obtain ⟨hcheck, hunique⟩ := check_decides .builtin comparing
  refine ⟨t, ht, hfields, hmethods, fun t' => ⟨fun ht' => ?_, ?_⟩⟩
  · exact hunique t' t ht' ((hcheck t).1 ht)
  · rintro rfl
    exact (hcheck t').1 ht

/-! ## Scales of literals -/

/-- A program with this decimal in it. -/
def holding (d : Decimal) : Source.Program where
  fields := [⟨"x", none, some (.literal (.decimal d))⟩]
  methods := [⟨"main", [], [], some "Integer", [.ret (.literal (.integer 0))]⟩]

def decoratedHolding (d : Decimal) : Typed.Program where
  fields := [⟨.plain "x" .decimal, some (.literal (.decimal d) .decimal)⟩]
  methods := [⟨.plain "main" [] .integer, [], [.ret (.literal (.integer 0) .integer)]⟩]

/-- The rules derive the program from nothing but that the decimal is a literal. -/
theorem programTyped_holding {decimals : Decimal → Prop} {d : Decimal} (h : decimals d) :
    Rules.ProgramTyped decimals .builtin .initial (holding d) (decoratedHolding d) := by
  have hinteger : Registry.builtin.typeNamed? "Integer" = some .integer := rfl
  have hzero : Rules.LiteralTyped decimals (.integer 0) .integer := .integer (by decide)
  refine .mk ⟨_, .head _, rfl, rfl, "Integer", rfl, hinteger⟩ ?_ ?_
  · refine .cons (.valued (.literal (.decimal h)) ?_) .nil
    rintro frame ⟨⟩
    rfl
  · refine .cons (.mk rfl .nil (.some hinteger) rfl .nil ?_) .nil
    exact .cons (.ret (.literal hzero) rfl) .nil

/-- If the values of decimals were all that counts, the rules would derive programs that a check
refuses. -/
theorem finite_literal_refused :
    Rules.ProgramTyped Decimal.FiniteDouble .builtin .initial (holding ⟨1, 2147483648⟩)
      (decoratedHolding ⟨1, 2147483648⟩) ∧
    check .builtin (holding ⟨1, 2147483648⟩) = .error (.decimalOverflow "1E-2147483648") := by
  constructor
  · exact programTyped_holding (Decimal.finiteDouble_of_magnitude (by decide))
  · rfl

end Typing

end TypedImp
