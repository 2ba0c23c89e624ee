import TypedImp.Proofs.Typing.Proper
import TypedImp.Render.Program

/-!
# What writing depends on

The writer asks the registry for the spellings of types and for nothing else, and it asks for those
of declared variables, parameters and results only (`Typed.Program.spelled`). Where two registries
spell these alike they write the same text (`program_congr`). Main statement (`generate_fails`):
writing fails if and only if one of these types was not issued, which is never so for a checked
program if the registry is closed.
-/

namespace TypedImp

namespace Typed

mutual

/-- The types of the variables that a statement declares, at any depth. The variable of a loop over
items is not among them: it is written as a whole number, whatever its type. -/
def Stmt.spelled : Stmt → List TypeId
  | .expression _ | .assignment _ _ | .ret _ => []
  | .declaration target _ => [target.type]
  | .conditional _ thenBody elseBody => blockSpelled thenBody ++ blockSpelled elseBody
  | .each _ _ body | .loop _ body => blockSpelled body

def blockSpelled : List Stmt → List TypeId
  | [] => []
  | s :: ss => s.spelled ++ blockSpelled ss

end

/-- The types of the parameters that have a name. -/
def parametersSpelled (names : List String) (types : List TypeId) : List TypeId :=
  (names.zip types).map Prod.snd

/-- The result type, unless it is that of no value. -/
def resultSpelled (result : TypeId) : List TypeId :=
  if result = .nil then [] else [result]

def Method.spelled (method : Method) : List TypeId :=
  resultSpelled method.function.result ++
    (parametersSpelled method.parameters method.function.parameters ++ blockSpelled method.body)

def Program.spelled (p : Program) : List TypeId :=
  p.fields.map (·.target.type) ++ p.methods.flatMap Method.spelled

end Typed

namespace Render

open Typed

variable {r r' : Registry} {α β : Type} {types types' : List TypeId} {layout : Layout}

/-! ## Steps in a row -/

section Bind

variable {step : Render α} {next : α → Render β} {page page' : Page}

theorem run_bind_ok {a : α} (h : step.run page = (.ok a, page')) :
    (step >>= next).run page = (next a).run page' := by
  change (ExceptT.bindCont next (step.run page).1 : StateM Page _) (step.run page).2 = _
  rw [h]
  rfl

theorem run_bind_error {e : Error} (h : (step.run page).1 = .error e) :
    ((step >>= next).run page).1 = .error e := by
  change ((ExceptT.bindCont next (step.run page).1 : StateM Page _) (step.run page).2).1 = _
  rw [h]
  rfl

end Bind

/-! ## Failures -/

/-- An outcome that is a failure if and only if one of these types was not issued, and an internal
one then. -/
def Hinges (r : Registry) (types : List TypeId) : Except Error α → Prop
  | .ok _ => ∀ type ∈ types, r.Issued type
  | .error e => e.toClass = .internalConsistency ∧ ∃ type ∈ types, ¬ r.Issued type

/-- The outcome hinges on these types, whatever has been written before. -/
def HingesOn (r : Registry) (types : List TypeId) (step : Render α) : Prop :=
  ∀ page, Hinges r types (step.run page).1

theorem Hinges.append_left {e : Error} (h : Hinges r types (.error e : Except Error α)) :
    Hinges r (types ++ types') (.error e : Except Error β) :=
  ⟨h.1, h.2.imp fun _ ht => ⟨List.mem_append_left _ ht.1, ht.2⟩⟩

theorem Hinges.append_right {o : Except Error α} (hissued : ∀ type ∈ types, r.Issued type)
    (h : Hinges r types' o) : Hinges r (types ++ types') o := by
  cases o with
  | ok a => exact List.forall_mem_append.2 ⟨hissued, h⟩
  | error e => exact ⟨h.1, h.2.imp fun _ ht => ⟨List.mem_append_right _ ht.1, ht.2⟩⟩

theorem hinges_pure (a : α) : Hinges r [] (pure a) :=
  fun _ h => absurd h List.not_mem_nil

theorem hinges_bind {o : Except Error α} {next : α → Except Error β} (h : Hinges r types o)
    (hnext : ∀ a, Hinges r types' (next a)) : Hinges r (types ++ types') (o >>= next) := by
  cases o with
  | error e => exact Hinges.append_left h
  | ok a => exact Hinges.append_right h (hnext a)

theorem hinges_bind_pure {o : Except Error α} (h : Hinges r types o) (f : α → β) :
    Hinges r types (do return f (← o)) := by
  cases o <;> exact h

theorem hinges_typeName (r : Registry) (type : TypeId) : Hinges r [type] (typeName r type) := by
  unfold typeName
  by_cases h : r.Issued type
  · obtain ⟨info, hi⟩ := Registry.issued_iff.1 h
    rw [hi]
    exact List.forall_mem_singleton.2 h
  · rw [Registry.info_eq_error h]
    exact ⟨rfl, type, .head _, h⟩

theorem hinges_resultName (r : Registry) (type : TypeId) :
    Hinges r (resultSpelled type) (resultName r type) := by
  unfold resultSpelled resultName
  split_ifs
  · exact hinges_pure "void"
  · exact hinges_typeName r type

theorem hinges_parameters (r : Registry) : ∀ (names : List String) (types : List TypeId),
    Hinges r (parametersSpelled names types) (parameters r names types)
  | [], _ | _ :: _, [] => hinges_pure []
  | _ :: names, type :: types =>
    hinges_bind (hinges_typeName r type) fun _ =>
      hinges_bind_pure (hinges_parameters r names types) _

theorem hingesOn_lift {o : Except Error α} (h : Hinges r types o) :
    HingesOn r types (liftM o) := by
  intro page
  cases o <;> exact h

theorem hingesOn_bind {step : Render α} {next : α → Render β} (h : HingesOn r types step)
    (hnext : ∀ a, HingesOn r types' (next a)) : HingesOn r (types ++ types') (step >>= next) := by
  intro page
  have hstep := h page
  generalize hrun : step.run page = result at hstep
  obtain ⟨e | a, page'⟩ := result
  · rw [run_bind_error (congrArg Prod.fst hrun)]
    exact Hinges.append_left hstep
  · rw [run_bind_ok hrun]
    exact Hinges.append_right hstep (hnext a page')

/-- Text that is written as it is does not fail. -/
theorem hingesOn_modify {f : Page → Page} : HingesOn r [] (modify f) :=
  fun _ => hinges_pure PUnit.unit

theorem hingesOn_modify_bind {f : Page → Page} {next : PUnit → Render β}
    (h : HingesOn r types (next ⟨⟩)) : HingesOn r types (modify f >>= next) :=
  fun page => h (f page)

/-- The line that closes a body. -/
theorem hingesOn_close (r : Registry) (layout : Layout) :
    HingesOn r [] (do dedent; newline layout; write "\x7d") :=
  hingesOn_modify_bind (hingesOn_modify_bind hingesOn_modify)

theorem hingesOn_declaration (r : Registry) (target : Variable) (value : Option Typed.Expr) :
    HingesOn r [target.type] (declaration r target value) := by
  refine hingesOn_bind (hingesOn_lift (hinges_typeName r target.type)) fun _ => ?_
  refine hingesOn_modify_bind ?_
  cases value <;> exact hingesOn_modify

mutual

theorem hingesOn_stmt (r : Registry) (layout : Layout) : ∀ s : Stmt,
    HingesOn r s.spelled (stmt r layout s)
  | .expression _ | .assignment _ _ | .ret _ => by
    unfold Stmt.spelled stmt
    exact hingesOn_modify
  | .declaration target value => by
    unfold Stmt.spelled stmt
    exact hingesOn_declaration r target value
  | .conditional _ thenBody elseBody => by
    unfold Stmt.spelled stmt
    refine hingesOn_modify_bind (hingesOn_bind (hingesOn_body r layout thenBody) fun _ => ?_)
    have helse := hingesOn_body r layout elseBody
    cases elseBody with
    | nil => exact fun _ => hinges_pure PUnit.unit
    | cons s ss => exact hingesOn_modify_bind helse
  | .each _ _ body | .loop _ body => by
    unfold Stmt.spelled stmt
    exact hingesOn_modify_bind (hingesOn_body r layout body)

theorem hingesOn_body (r : Registry) (layout : Layout) : ∀ ss : List Stmt,
    HingesOn r (blockSpelled ss) (body r layout ss)
  | [] => by
    unfold blockSpelled body
    exact hingesOn_modify
  | s :: ss => by
    have hlines := hingesOn_bind (hingesOn_lines r layout ss) fun _ => hingesOn_close r layout
    rw [List.append_nil] at hlines
    unfold blockSpelled body
    refine hingesOn_modify_bind (hingesOn_modify_bind (hingesOn_modify_bind ?_))
    exact hingesOn_bind (hingesOn_stmt r layout s) fun _ => hlines

theorem hingesOn_lines (r : Registry) (layout : Layout) : ∀ ss : List Stmt,
    HingesOn r (blockSpelled ss) (lines r layout ss)
  | [] => by
    unfold blockSpelled lines
    exact fun _ => hinges_pure PUnit.unit
  | s :: ss => by
    unfold blockSpelled lines
    refine hingesOn_modify_bind (hingesOn_bind (hingesOn_stmt r layout s) fun _ => ?_)
    exact hingesOn_lines r layout ss

end

theorem hingesOn_method (r : Registry) (layout : Layout) (m : Method) :
    HingesOn r m.spelled (method r layout m) := by
  refine hingesOn_bind (hingesOn_lift (hinges_resultName r _)) fun _ => ?_
  refine hingesOn_bind (hingesOn_lift (hinges_parameters r _ _)) fun _ => ?_
  exact hingesOn_modify_bind (hingesOn_body r layout m.body)

theorem hingesOn_fields (r : Registry) (layout : Layout) : ∀ fs : List Field,
    HingesOn r (fs.map (·.target.type)) (fields r layout fs)
  | [] => fun _ => hinges_pure PUnit.unit
  | f :: fs => by
    refine hingesOn_modify_bind ?_
    exact hingesOn_bind (hingesOn_declaration r f.target f.value) fun _ =>
      hingesOn_fields r layout fs

theorem hingesOn_methods (r : Registry) (layout : Layout) : ∀ ms : List Method,
    HingesOn r (ms.flatMap Method.spelled) (methods r layout ms)
  | [] => fun _ => hinges_pure PUnit.unit
  | m :: ms => by
    refine hingesOn_modify_bind (hingesOn_modify_bind ?_)
    exact hingesOn_bind (hingesOn_method r layout m) fun _ => hingesOn_methods r layout ms

theorem hingesOn_entry (layout : Layout) : HingesOn r [] (entry layout) :=
  hingesOn_modify_bind (hingesOn_modify_bind (hingesOn_modify_bind (hingesOn_modify_bind
    (hingesOn_modify_bind (hingesOn_modify_bind hingesOn_modify)))))

/-- What is written below the fields. -/
theorem hingesOn_entryAndMethods (r : Registry) (layout : Layout) (ms : List Method) :
    HingesOn r (ms.flatMap Method.spelled) (do
      newline layout
      entry layout
      methods r layout ms
      dedent
      blankLine
      newline layout
      write "\x7d") := by
  have hclose : HingesOn r [] (do dedent; blankLine; newline layout; write "\x7d") :=
    hingesOn_modify_bind (hingesOn_modify_bind (hingesOn_modify_bind hingesOn_modify))
  have hmethods := hingesOn_bind (hingesOn_methods r layout ms) fun _ => hclose
  rw [List.append_nil] at hmethods
  exact hingesOn_modify_bind (hingesOn_bind (hingesOn_entry layout) fun _ => hmethods)

theorem hingesOn_program (r : Registry) (layout : Layout) (p : Program) :
    HingesOn r p.spelled (program r layout p) := by
  have hrest := hingesOn_entryAndMethods r layout p.methods
  unfold program Program.spelled
  refine hingesOn_modify_bind (hingesOn_modify_bind (hingesOn_modify_bind ?_))
  cases hfields : p.fields with
  | nil => exact hrest
  | cons f fs =>
    refine hingesOn_bind (hingesOn_fields r layout (f :: fs)) fun _ => ?_
    exact hingesOn_modify_bind hrest

/-! ## Agreement -/

/-- Both registries spell these types alike. -/
def Agree (r r' : Registry) (types : List TypeId) : Prop :=
  ∀ type ∈ types, typeName r' type = typeName r type

theorem declaration_congr {target : Variable} (h : Agree r r' [target.type])
    (value : Option Typed.Expr) : declaration r' target value = declaration r target value := by
  unfold declaration
  rw [h target.type (.head _)]

mutual

theorem stmt_congr : ∀ s : Stmt, Agree r r' s.spelled → stmt r' layout s = stmt r layout s
  | .expression _, _ | .assignment _ _, _ | .ret _, _ => by
    unfold stmt
    rfl
  | .declaration target value, h => by
    unfold Stmt.spelled at h
    unfold stmt
    exact declaration_congr h value
  | .conditional _ thenBody elseBody, h => by
    unfold Stmt.spelled at h
    obtain ⟨hthen, helse⟩ := List.forall_mem_append.1 h
    unfold stmt
    rw [body_congr thenBody hthen, body_congr elseBody helse]
  | .each _ _ loopBody, h | .loop _ loopBody, h => by
    unfold Stmt.spelled at h
    unfold stmt
    rw [body_congr loopBody h]

theorem body_congr : ∀ ss : List Stmt, Agree r r' (blockSpelled ss) →
    body r' layout ss = body r layout ss
  | [], _ => by
    unfold body
    rfl
  | s :: ss, h => by
    unfold blockSpelled at h
    obtain ⟨hs, hss⟩ := List.forall_mem_append.1 h
    unfold body
    rw [stmt_congr s hs, lines_congr ss hss]

theorem lines_congr : ∀ ss : List Stmt, Agree r r' (blockSpelled ss) →
    lines r' layout ss = lines r layout ss
  | [], _ => by
    unfold lines
    rfl
  | s :: ss, h => by
    unfold blockSpelled at h
    obtain ⟨hs, hss⟩ := List.forall_mem_append.1 h
    unfold lines
    rw [stmt_congr s hs, lines_congr ss hss]

end

theorem parameters_congr : ∀ {names : List String} {types : List TypeId},
    Agree r r' (parametersSpelled names types) →
      parameters r' names types = parameters r names types
  | [], _, _ | _ :: _, [], _ => rfl
  | _ :: _, type :: _, h => by
    obtain ⟨htype, hrest⟩ := List.forall_mem_cons.1 h
    unfold parameters
    rw [htype, parameters_congr hrest]

theorem resultName_congr {type : TypeId} (h : Agree r r' (resultSpelled type)) :
    resultName r' type = resultName r type := by
  unfold resultSpelled at h
  unfold resultName
  split_ifs at h ⊢
  · rfl
  · exact h type (.head _)

theorem method_congr {m : Method} (h : Agree r r' m.spelled) :
    method r' layout m = method r layout m := by
  obtain ⟨hresult, h⟩ := List.forall_mem_append.1 h
  obtain ⟨hparameters, hbody⟩ := List.forall_mem_append.1 h
  unfold method
  rw [resultName_congr hresult, parameters_congr hparameters, body_congr m.body hbody]

theorem fields_congr : ∀ fs : List Field, Agree r r' (fs.map (·.target.type)) →
    fields r' layout fs = fields r layout fs
  | [], _ => rfl
  | f :: fs, h => by
    obtain ⟨hf, hfs⟩ := List.forall_mem_cons.1 h
    unfold fields field
    rw [declaration_congr (List.forall_mem_singleton.2 hf), fields_congr fs hfs]

theorem methods_congr : ∀ ms : List Method, Agree r r' (ms.flatMap Method.spelled) →
    methods r' layout ms = methods r layout ms
  | [], _ => rfl
  | m :: ms, h => by
    rw [List.flatMap_cons] at h
    obtain ⟨hm, hms⟩ := List.forall_mem_append.1 h
    unfold methods
    rw [method_congr hm, methods_congr ms hms]

theorem program_congr {p : Program} (h : Agree r r' p.spelled) :
    program r' layout p = program r layout p := by
  obtain ⟨hfields, hmethods⟩ := List.forall_mem_append.1 h
  unfold program
  rw [fields_congr p.fields hfields, methods_congr p.methods hmethods]

end Render

/-! ## Checked programs -/

open Typed

variable {r : Registry} {env : Environment}

section

variable (hr : r.Reachable) (hc : r.Closed)
include hr hc

mutual

/-- All types that a checked statement spells were issued. -/
theorem issued_of_stmtTyped : ∀ (s : Source.Stmt) {env : Environment} {t : Stmt},
    StmtTyped r env s t → env.Proper r → ∀ type ∈ t.spelled, r.Issued type
  | .expression _, _, _, .expression _ _, _ | .assignment _ _, _, _, .assignment _ _ _ _, _
  | .ret _, _, _, .ret _ _, _ => by
    unfold Stmt.spelled
    exact fun _ h => absurd h List.not_mem_nil
  | .declaration _ _ _, _, _, .declaration hd, h => by
    unfold Stmt.spelled
    exact List.forall_mem_singleton.2 (h.issued_of_declarationTyped hr hc hd)
  | .conditional _ thenBody elseBody, _, _, .conditional _ _ _ ht he, h => by
    unfold Stmt.spelled
    exact List.forall_mem_append.2
      ⟨issued_of_blockTyped thenBody ht h.nest, issued_of_blockTyped elseBody he h.nest⟩
  | .each name _ body, _, _, .each _ _ _ hb, h => by
    unfold Stmt.spelled
    exact issued_of_blockTyped body hb (h.round hr name)
  | .loop _ body, _, _, .loop _ _ hb, h => by
    unfold Stmt.spelled
    exact issued_of_blockTyped body hb h.nest

theorem issued_of_blockTyped : ∀ (ss : List Source.Stmt) {env : Environment} {ts : List Stmt},
    BlockTyped r env ss ts → env.Proper r → ∀ type ∈ blockSpelled ts, r.Issued type
  | [], _, _, .nil, _ => by
    unfold blockSpelled
    exact fun _ h => absurd h List.not_mem_nil
  | s :: ss, _, _, .cons hs hss, h => by
    unfold blockSpelled
    exact List.forall_mem_append.2
      ⟨issued_of_stmtTyped s hs h, issued_of_blockTyped ss hss (h.after hr hc hs)⟩

end

theorem issued_of_methodTyped {source : Source.Method} {method : Method}
    (ht : MethodTyped r env source method) (h : env.Proper r) :
    ∀ type ∈ method.spelled, r.Issued type := by
  have hbody := (h.body hr ht).1
  cases ht with
  | mk _ named hres _ _ hb =>
    refine List.forall_mem_append.2 ⟨?_, List.forall_mem_append.2 ⟨?_, ?_⟩⟩
    · unfold resultSpelled
      split_ifs
      · exact fun _ h => absurd h List.not_mem_nil
      · exact List.forall_mem_singleton.2 (issued_of_resultNamed hr hres)
    · intro type hmem
      obtain ⟨⟨name, type⟩, hpair, rfl⟩ := List.mem_map.1 hmem
      exact issued_of_typesNamed named type (List.of_mem_zip hpair).2
    · exact issued_of_blockTyped hr hc _ hb hbody

theorem issued_of_methodsTyped : ∀ {sources : List Source.Method} {methods : List Method}
    {env : Environment}, MethodsTyped r env sources methods → env.Proper r →
    ∀ type ∈ methods.flatMap Method.spelled, r.Issued type
  | _, _, _, .nil, _ => fun _ h => absurd h List.not_mem_nil
  | _, _, _, .cons hm hms, h =>
    List.forall_mem_append.2 ⟨issued_of_methodTyped hr hc hm h,
      issued_of_methodsTyped hms (h.body hr hm).2⟩

/-- All types that a checked program spells were issued. -/
theorem issued_of_programTyped {p : Source.Program} {t : Program} (ht : ProgramTyped r env p t)
    (h : env.Proper r) : ∀ type ∈ t.spelled, r.Issued type := by
  cases ht with
  | mk _ hf hm =>
    obtain ⟨hfields, hproper⟩ := h.fields hr hc hf
    refine List.forall_mem_append.2 ⟨?_, issued_of_methodsTyped hr hc hm hproper⟩
    exact List.forall_mem_map.2 hfields

end

theorem hinges_generate (r : Registry) (t : Program) :
    Render.Hinges r t.spelled (generate r t) := by
  have h := Render.hingesOn_program r .standard t .empty
  change Render.Hinges r _ (((Render.program r .standard t).run .empty).1.map _)
  generalize ((Render.program r .standard t).run .empty).1 = o at h
  cases o <;> exact h

/-- A program can be written unless it spells a type that was not issued. Then writing fails with an
internal error. Over a closed registry a checked program can always be written. -/
theorem generate_fails (r : Registry) :
    (∀ t : Program,
      ((∃ e, generate r t = .error e) ↔ ∃ type ∈ t.spelled, ¬ r.Issued type) ∧
        ∀ e, generate r t = .error e → e.toClass = .internalConsistency) ∧
    (r.Reachable → r.Closed → ∀ p t, Typing.check r p = .ok t →
      ∃ text, generate r t = .ok text) := by
  constructor
  · intro t
    have h := hinges_generate r t
    cases hg : generate r t with
    | ok text =>
      rw [hg] at h
      refine ⟨iff_of_false (by simp) ?_, fun _ he => nomatch he⟩
      rintro ⟨type, hmem, hissued⟩
      exact hissued (h type hmem)
    | error e =>
      rw [hg] at h
      exact ⟨iff_of_true ⟨e, rfl⟩ h.2, by rintro _ ⟨⟩; exact h.1⟩
  · intro hr hc p t ht
    have hissued := issued_of_programTyped hr hc ((Typing.check_iff hr).1 ht) (.initial hr)
    have h := hinges_generate r t
    cases hg : generate r t with
    | ok text => exact ⟨text, rfl⟩
    | error e =>
      rw [hg] at h
      obtain ⟨-, type, hmem, hunissued⟩ := h
      exact (hunissued (hissued type hmem)).elim

/-- The type of a variable in a block is that of a field. -/
def Source.Program.visit : Source.Program where
  fields := []
  methods :=
    [⟨"visit", ["p"], ["Point"], none,
      [.conditional (.literal (.boolean true))
        [.declaration "q" none (some (.field (.var "p") "next"))] []]⟩,
     ⟨"main", [], [], some "Integer", [.ret (.literal (.integer 0))]⟩]

theorem generate_fails_visit : ∃ t text, Typing.check .linkedPoints .visit = .ok t ∧
    generate .linkedPoints t = .ok text ∧
    ∃ e, generate .builtin t = .error e ∧ e.toClass = .internalConsistency := by
  have hspelled : (Typing.check .linkedPoints .visit).toOption.map Program.spelled =
      some [⟨9⟩, ⟨9⟩, .integer] := by
    decide +kernel
  obtain ⟨t, ht, hspelled⟩ := exists_of_view hspelled
  obtain ⟨text, hg⟩ := (generate_fails .linkedPoints).2 Registry.reachable_linkedPoints
    Registry.closed_linkedPoints _ _ ht
  obtain ⟨hfails, hclass⟩ := (generate_fails .builtin).1 t
  obtain ⟨e, he⟩ := hfails.2 ⟨⟨9⟩, by rw [hspelled]; exact .head _, by decide +kernel⟩
  exact ⟨t, text, ht, hg, e, he, hclass e he⟩

end TypedImp
