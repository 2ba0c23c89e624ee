import TypedImp.Proofs.Typing.Judgement

/-!
# What programs call

Without a receiver, functions are called by name and number of arguments. What is well typed calls
only what is known where it stands (`traced_of_exprTyped`, `traced_of_blockTyped`). A method knows
itself and the methods before it, so if no method of a program calls itself, each calls only
earlier ones (`layered_of_programTyped`).
-/

namespace TypedImp

namespace Source

mutual

/-- What is called without a receiver, from left to right. -/
def Expr.calls : Expr → List (String × Nat)
  | .literal _ | .var _ => []
  | .group inner => inner.calls
  | .binary _ left right => left.calls ++ right.calls
  | .field receiver _ => receiver.calls
  | .call name arguments => (name, arguments.length) :: exprsCalls arguments
  | .method receiver _ arguments => receiver.calls ++ exprsCalls arguments

def exprsCalls : List Expr → List (String × Nat)
  | [] => []
  | e :: es => e.calls ++ exprsCalls es

end

mutual

def Stmt.calls : Stmt → List (String × Nat)
  | .expression e | .ret e => e.calls
  | .declaration _ _ value => value.elim [] Expr.calls
  | .assignment target value => target.calls ++ value.calls
  | .conditional condition thenBody elseBody =>
    condition.calls ++ (blockCalls thenBody ++ blockCalls elseBody)
  | .each _ items body | .loop items body => items.calls ++ blockCalls body

def blockCalls : List Stmt → List (String × Nat)
  | [] => []
  | s :: ss => s.calls ++ blockCalls ss

end

mutual

/-- Nothing is repeated but for the items of a sequence. -/
def Stmt.Loopless : Stmt → Prop
  | .expression _ | .declaration _ _ _ | .assignment _ _ | .ret _ => True
  | .conditional _ thenBody elseBody => BlockLoopless thenBody ∧ BlockLoopless elseBody
  | .each _ _ body => BlockLoopless body
  | .loop _ _ => False

def BlockLoopless : List Stmt → Prop
  | [] => True
  | s :: ss => s.Loopless ∧ BlockLoopless ss

end

/-- A method without loops that does not call itself. Another method of the same name may have
another number of parameters. -/
structure Method.Direct (method : Method) : Prop where
  loopless : BlockLoopless method.body
  notSelf : (method.name, method.parameters.length) ∉ blockCalls method.body

end Source

namespace Typed

mutual

def Expr.calls : Expr → List (String × Nat)
  | .literal _ _ | .var _ _ => []
  | .group inner _ => inner.calls
  | .binary _ left right _ => left.calls ++ right.calls
  | .field receiver _ _ => receiver.calls
  | .call function arguments _ => (function.name, arguments.length) :: exprsCalls arguments
  | .method receiver _ arguments _ => receiver.calls ++ exprsCalls arguments

def exprsCalls : List Expr → List (String × Nat)
  | [] => []
  | e :: es => e.calls ++ exprsCalls es

end

mutual

def Stmt.calls : Stmt → List (String × Nat)
  | .expression e | .ret e => e.calls
  | .declaration _ value => value.elim [] Expr.calls
  | .assignment target value => target.calls ++ value.calls
  | .conditional condition thenBody elseBody =>
    condition.calls ++ (blockCalls thenBody ++ blockCalls elseBody)
  | .each _ items body | .loop items body => items.calls ++ blockCalls body

def blockCalls : List Stmt → List (String × Nat)
  | [] => []
  | s :: ss => s.calls ++ blockCalls ss

end

mutual

def Stmt.Loopless : Stmt → Prop
  | .expression _ | .declaration _ _ | .assignment _ _ | .ret _ => True
  | .conditional _ thenBody elseBody => BlockLoopless thenBody ∧ BlockLoopless elseBody
  | .each _ _ body => BlockLoopless body
  | .loop _ _ => False

def BlockLoopless : List Stmt → Prop
  | [] => True
  | s :: ss => s.Loopless ∧ BlockLoopless ss

end

def Field.calls (field : Field) : List (String × Nat) :=
  field.value.elim [] Expr.calls

/-- What a method is found by. -/
def Method.key (method : Method) : String × Nat :=
  (method.function.name, method.parameters.length)

end Typed

variable {r : Registry} {env : Environment} {functions : Table (String × Nat) Function}

/-! ## Decoration -/

/-- What is decorated calls the same as before, and all of it is known. -/
structure Traced (functions : Table (String × Nat) Function) (calls calls' : List (String × Nat)) :
    Prop where
  eq : calls' = calls
  known : ∀ key ∈ calls, ∃ f, functions.get? key = some f

namespace Traced

theorem nil : Traced functions [] [] :=
  ⟨rfl, fun _ h => absurd h List.not_mem_nil⟩

theorem append {calls calls' more more' : List (String × Nat)} (h : Traced functions calls calls')
    (h' : Traced functions more more') : Traced functions (calls ++ more) (calls' ++ more') :=
  ⟨by rw [h.eq, h'.eq], List.forall_mem_append.2 ⟨h.known, h'.known⟩⟩

end Traced

theorem Rules.ExprsTyped.length_eq {decimals : Decimal → Prop} {es : List Source.Expr}
    {ts : List Typed.Expr} (h : ExprsTyped decimals r env es ts) : es.length = ts.length := by
  induction es generalizing ts with
  | nil => cases h; rfl
  | cons e es ih =>
    cases h with
    | cons _ hs => exact congrArg (· + 1) (ih hs)

mutual

theorem traced_of_exprTyped (hk : Keyed env.functions) : ∀ (e : Source.Expr) {t : Typed.Expr},
    ExprTyped r env e t → Traced env.functions e.calls t.calls
  | .literal _, _, .literal _ | .var _, _, .var _ => by
    unfold Source.Expr.calls Typed.Expr.calls
    exact .nil
  | .group inner, _, ht => by
    cases ht with
    | group h =>
      unfold Source.Expr.calls Typed.Expr.calls
      exact traced_of_exprTyped hk _ h
  | .binary _ left right, _, .binary hl hr _ => by
    unfold Source.Expr.calls Typed.Expr.calls
    exact (traced_of_exprTyped hk left hl).append (traced_of_exprTyped hk right hr)
  | .field receiver _, _, .field hr _ => by
    unfold Source.Expr.calls Typed.Expr.calls
    exact traced_of_exprTyped hk receiver hr
  | .call name arguments, _, .call hs h _ _ => by
    obtain ⟨heq, hknown⟩ := traced_of_exprsTyped hk arguments hs
    obtain ⟨hname, -⟩ := Prod.mk.inj (hk _ _ h)
    unfold Source.Expr.calls Typed.Expr.calls
    rw [hs.length_eq, heq, ← hname]
    exact ⟨rfl, List.forall_mem_cons.2 ⟨⟨_, h⟩, hknown⟩⟩
  | .method receiver _ arguments, _, .method hr hs _ _ _ => by
    unfold Source.Expr.calls Typed.Expr.calls
    exact (traced_of_exprTyped hk receiver hr).append (traced_of_exprsTyped hk arguments hs)

theorem traced_of_exprsTyped (hk : Keyed env.functions) :
    ∀ (es : List Source.Expr) {ts : List Typed.Expr}, ExprsTyped r env es ts →
      Traced env.functions (Source.exprsCalls es) (Typed.exprsCalls ts)
  | [], _, .nil => by
    unfold Source.exprsCalls Typed.exprsCalls
    exact .nil
  | e :: es, _, .cons h hs => by
    unfold Source.exprsCalls Typed.exprsCalls
    exact (traced_of_exprTyped hk e h).append (traced_of_exprsTyped hk es hs)

end

theorem traced_of_declarationTyped (hk : Keyed env.functions) {name : String}
    {type : Option String} {value : Option Source.Expr} {target : Variable}
    {value' : Option Typed.Expr} (h : DeclarationTyped r env name type value target value') :
    Traced env.functions (value.elim [] Source.Expr.calls) (value'.elim [] Typed.Expr.calls) := by
  cases h with
  | typed _ _ => exact .nil
  | valued hv _ => exact traced_of_exprTyped hk _ hv
  | both _ hv _ _ => exact traced_of_exprTyped hk _ hv

theorem functions_declareAll : ∀ (vs : List Variable) (env : Environment),
    (env.declareAll vs).functions = env.functions
  | [], _ => rfl
  | v :: vs, env => functions_declareAll vs (env.declare v)

theorem functions_ofMethod (env : Environment) (f : Function) (parameters : List String) :
    (env.ofMethod f parameters).functions = (env.declareFunction f).functions :=
  functions_declareAll _ (env.declareFunction f).nest

mutual

theorem traced_of_stmtTyped : ∀ (s : Source.Stmt) {env : Environment} {t : Typed.Stmt},
    StmtTyped r env s t → Keyed env.functions → Traced env.functions s.calls t.calls
  | .expression e, _, _, .expression _ h, hk => by
    unfold Source.Stmt.calls Typed.Stmt.calls
    exact traced_of_exprTyped hk e h
  | .declaration _ _ value, _, _, .declaration h, hk => by
    unfold Source.Stmt.calls Typed.Stmt.calls
    exact traced_of_declarationTyped hk h
  | .assignment target value, _, _, .assignment _ ht hv _, hk => by
    unfold Source.Stmt.calls Typed.Stmt.calls
    exact (traced_of_exprTyped hk target ht).append (traced_of_exprTyped hk value hv)
  | .conditional condition thenBody elseBody, _, _, .conditional hc _ _ ht he, hk => by
    unfold Source.Stmt.calls Typed.Stmt.calls
    have hthen := traced_of_blockTyped thenBody ht hk
    have helse := traced_of_blockTyped elseBody he hk
    exact (traced_of_exprTyped hk condition hc).append (hthen.append helse)
  | .each _ items body, _, _, .each hc _ _ hb, hk | .loop items body, _, _, .loop hc _ hb, hk => by
    unfold Source.Stmt.calls Typed.Stmt.calls
    have hbody := traced_of_blockTyped body hb hk
    exact (traced_of_exprTyped hk items hc).append hbody
  | .ret value, _, _, .ret hv _, hk => by
    unfold Source.Stmt.calls Typed.Stmt.calls
    exact traced_of_exprTyped hk value hv

theorem traced_of_blockTyped : ∀ (ss : List Source.Stmt) {env : Environment} {ts : List Typed.Stmt},
    BlockTyped r env ss ts → Keyed env.functions →
    Traced env.functions (Source.blockCalls ss) (Typed.blockCalls ts)
  | [], _, _, .nil, _ => by
    unfold Source.blockCalls Typed.blockCalls
    exact .nil
  | s :: ss, env, t :: _, .cons h hs, hk => by
    have hafter : (env.after t).functions = env.functions := functions_declareAll _ _
    have hrest := traced_of_blockTyped ss hs (by rwa [hafter])
    rw [hafter] at hrest
    unfold Source.blockCalls Typed.blockCalls
    exact (traced_of_stmtTyped s h hk).append hrest

end

mutual

theorem loopless_of_stmtTyped : ∀ (s : Source.Stmt) {env : Environment} {t : Typed.Stmt},
    StmtTyped r env s t → s.Loopless → t.Loopless
  | .expression _, _, _, .expression _ _, _ | .declaration _ _ _, _, _, .declaration _, _
  | .assignment _ _, _, _, .assignment _ _ _ _, _ | .ret _, _, _, .ret _ _, _ => by
    unfold Typed.Stmt.Loopless
    trivial
  | .conditional _ thenBody elseBody, _, _, .conditional _ _ _ ht he, h => by
    unfold Source.Stmt.Loopless at h
    unfold Typed.Stmt.Loopless
    exact ⟨loopless_of_blockTyped thenBody ht h.1, loopless_of_blockTyped elseBody he h.2⟩
  | .each _ _ body, _, _, .each _ _ _ hb, h => by
    unfold Source.Stmt.Loopless at h
    unfold Typed.Stmt.Loopless
    exact loopless_of_blockTyped body hb h
  | .loop _ _, _, _, _, h => by
    unfold Source.Stmt.Loopless at h
    exact h.elim

theorem loopless_of_blockTyped : ∀ (ss : List Source.Stmt) {env : Environment}
    {ts : List Typed.Stmt}, BlockTyped r env ss ts → Source.BlockLoopless ss →
    Typed.BlockLoopless ts
  | [], _, _, .nil, _ => by
    unfold Typed.BlockLoopless
    trivial
  | s :: ss, _, _, .cons h hs, hl => by
    unfold Source.BlockLoopless at hl
    unfold Typed.BlockLoopless
    exact ⟨loopless_of_stmtTyped s h hl.1, loopless_of_blockTyped ss hs hl.2⟩

end

/-! ## Layers -/

/-- These keys are those of `print` and of the methods. -/
def Offered (methods : List Typed.Method) (key : String × Nat) : Prop :=
  key = ("print", 1) ∨ ∃ method ∈ methods, method.key = key

/-- The method is without loops, calls only these earlier ones and is told from them by its key. -/
structure Typed.Method.Follows (method : Typed.Method) (earlier : List Typed.Method) : Prop where
  loopless : Typed.BlockLoopless method.body
  calls : ∀ key ∈ Typed.blockCalls method.body, Offered earlier key
  fresh : ¬ Offered earlier method.key

/-- Every method follows those behind it. The latest one comes first. -/
def Layered : List Typed.Method → Prop
  | [] => True
  | method :: earlier => method.Follows earlier ∧ Layered earlier

theorem Offered.mono {methods methods' : List Typed.Method} {key : String × Nat}
    (h : Offered methods key) (hsub : methods ⊆ methods') : Offered methods' key := by
  rcases h with h | ⟨method, hmem, h⟩
  · exact .inl h
  · exact .inr ⟨method, hsub hmem, h⟩

namespace Layered

theorem of_suffix : ∀ {methods earlier : List Typed.Method}, Layered methods →
    earlier <:+ methods → Layered earlier
  | [], _, h, hs => (List.suffix_nil.1 hs) ▸ h
  | _ :: _, _, h, hs => by
    rcases List.suffix_cons_iff.1 hs with rfl | hs
    · exact h
    · exact of_suffix h.2 hs

/-- A method that is found by a key of the earlier ones is one of them. -/
theorem find : ∀ {methods earlier : List Typed.Method} {method : Typed.Method}, Layered methods →
    earlier <:+ methods → method ∈ methods → Offered earlier method.key →
    ∃ older, method :: older <:+ earlier
  | latest :: rest, earlier, method, h, hs, hmem, hoffered => by
    rcases List.suffix_cons_iff.1 hs with rfl | hrest
    · obtain ⟨front, older, heq⟩ := List.append_of_mem hmem
      exact ⟨older, front, heq.symm⟩
    · rcases List.mem_cons.1 hmem with rfl | hmem
      · exact (h.1.fresh (hoffered.mono hrest.subset)).elim
      · exact find h.2 hrest hmem hoffered

end Layered

/-- What is known is what these methods and `print` offer. -/
structure Offers (functions : Table (String × Nat) Function) (methods : List Typed.Method) :
    Prop where
  keyed : Keyed functions
  known : ∀ key, (∃ f, functions.get? key = some f) ↔ Offered methods key

theorem Offers.declareFunction {earlier : List Typed.Method} (h : Offers env.functions earlier)
    {source : Source.Method} {method : Typed.Method} (ht : MethodTyped r env source method) :
    Offers (env.declareFunction method.function).functions (method :: earlier) where
  keyed := h.keyed.declareFunction _
  known := by
    intro key
    have hmethod : method.key = (method.function.name, method.function.arity) :=
      congrArg (Prod.mk _) (arity_of_methodTyped ht)
    rw [Environment.declareFunction, Table.get?_insert, ← hmethod]
    split_ifs with hkey
    · exact iff_of_true ⟨_, rfl⟩ (.inr ⟨method, .head _, hkey.symm⟩)
    · rw [h.known, Offered, Offered, List.exists_mem_cons_iff, or_iff_right (Ne.symm hkey)]

/-- A well typed method that does not call itself calls earlier ones only. -/
theorem layered_of_methodTyped {earlier : List Typed.Method} (h : Offers env.functions earlier)
    {source : Source.Method} {method : Typed.Method} (ht : MethodTyped r env source method)
    (hd : source.Direct) (hl : Layered earlier) : Layered (method :: earlier) := by
  have hfresh : ¬ Offered earlier method.key := by
    rw [← h.known]
    rintro ⟨f, hf⟩
    rw [Typed.Method.key, arity_of_methodTyped ht, fresh_of_methodTyped ht] at hf
    cases hf
  have hnext := h.declareFunction ht
  cases ht with
  | @mk types result body _ _ _ _ _ hb =>
    refine ⟨⟨loopless_of_blockTyped _ hb hd.loopless, fun key hkey => ?_, hfresh⟩, hl⟩
    have htraced := traced_of_blockTyped _ hb ((functions_ofMethod ..).symm ▸ hnext.keyed)
    rw [functions_ofMethod] at htraced
    rw [htraced.eq] at hkey
    rcases (hnext.known key).1 (htraced.known key hkey) with hprint | ⟨method, hmem, rfl⟩
    · exact .inl hprint
    · rcases List.mem_cons.1 hmem with rfl | hmem
      · exact (hd.notSelf hkey).elim
      · exact .inr ⟨method, hmem, rfl⟩

theorem layered_of_methodsTyped : ∀ {sources : List Source.Method}
    {methods earlier : List Typed.Method} {env : Environment}, MethodsTyped r env sources methods →
    Offers env.functions earlier → (∀ source ∈ sources, source.Direct) → Layered earlier →
    Layered (methods.reverse ++ earlier)
  | _, _, _, _, .nil, _, _, hl => hl
  | _, method :: methods, earlier, _, .cons h hs, ho, hd, hl => by
    rw [List.forall_mem_cons] at hd
    rw [List.reverse_cons, List.append_assoc]
    exact layered_of_methodsTyped hs (ho.declareFunction h) hd.2
      (layered_of_methodTyped ho h hd.1 hl)

theorem length_of_methodsTyped : ∀ {sources : List Source.Method} {methods : List Typed.Method}
    {env : Environment}, MethodsTyped r env sources methods → methods.length = sources.length
  | _, _, _, .nil => rfl
  | _, _, _, .cons _ hs => congrArg (· + 1) (length_of_methodsTyped hs)

/-- Fields are computed before there are methods. -/
theorem offered_of_fieldsTyped : ∀ {sources : List Source.Field} {fields : List Typed.Field}
    {env : Environment}, FieldsTyped r env sources fields → Offers env.functions [] →
    ∀ field ∈ fields, ∀ key ∈ field.calls, Offered [] key
  | _, _, _, .cons h hs, ho, field, hmem => by
    rcases List.mem_cons.1 hmem with rfl | hmem
    · have htraced := traced_of_declarationTyped ho.keyed h
      intro key hkey
      exact (ho.known key).1 (htraced.known key (htraced.eq ▸ hkey))
    · exact offered_of_fieldsTyped hs ⟨ho.keyed, ho.known⟩ field hmem

/-- The fields of a program call `print` only, and its methods are layered. -/
structure Typed.Program.Layered (t : Typed.Program) : Prop where
  fields : ∀ field ∈ t.fields, ∀ key ∈ field.calls, Offered [] key
  methods : TypedImp.Layered t.methods.reverse

theorem layered_of_programTyped {p : Source.Program} {t : Typed.Program}
    (ht : ProgramTyped r env p t) (ho : Offers env.functions [])
    (hd : ∀ source ∈ p.methods, source.Direct) :
    t.Layered ∧ t.methods.length = p.methods.length := by
  cases ht with
  | @mk fields methods _ hf hm =>
    have hfunctions := functions_declareAll (fields.map (·.target)) env
    have hlayered : Layered (methods.reverse ++ []) :=
      layered_of_methodsTyped hm (hfunctions.symm ▸ ho) hd trivial
    rw [List.append_nil] at hlayered
    exact ⟨⟨offered_of_fieldsTyped hf ho, hlayered⟩, length_of_methodsTyped hm⟩

end TypedImp
