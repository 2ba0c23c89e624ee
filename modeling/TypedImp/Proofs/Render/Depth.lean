import TypedImp.Proofs.Decimal.Reading
import TypedImp.Proofs.Render.Scanner
import TypedImp.Proofs.Render.Spelled

/-!
# Text at a depth

The text of a statement is the same at every depth but for the margin. An expression is written
without a line break if its spellings have none (`oneLine_expr`), so all line breaks are those that
the page makes, and behind each of them stands the margin of the depth that the page was at. Main
statement: `stmt_at_depth`.
-/

namespace TypedImp

namespace Typed

mutual

/-- The spellings of the variables and functions that an expression means. -/
def Expr.targets : Expr → List String
  | .literal _ _ => []
  | .group inner _ => inner.targets
  | .binary _ left right _ => left.targets ++ right.targets
  | .var target _ => [target.target]
  | .field receiver target _ => receiver.targets ++ [target.target]
  | .call function arguments _ => function.target :: exprsTargets arguments
  | .method receiver function arguments _ =>
    receiver.targets ++ function.target :: exprsTargets arguments

def exprsTargets : List Expr → List String
  | [] => []
  | e :: es => e.targets ++ exprsTargets es

end

mutual

/-- The spellings of the variables and functions in a statement, at any depth. -/
def Stmt.targets : Stmt → List String
  | .expression e | .ret e => e.targets
  | .declaration target value => target.target :: (value.map Expr.targets).getD []
  | .assignment target value => target.targets ++ value.targets
  | .conditional condition thenBody elseBody =>
    condition.targets ++ (blockTargets thenBody ++ blockTargets elseBody)
  | .each target items body => target.target :: (items.targets ++ blockTargets body)
  | .loop condition body => condition.targets ++ blockTargets body

def blockTargets : List Stmt → List String
  | [] => []
  | s :: ss => s.targets ++ blockTargets ss

end

end Typed

namespace Render

open Typed

variable {r : Registry} {layout : Layout} {s t : String}

/-! ## Texts without a line break -/

def OneLine (text : String) : Prop :=
  '\n' ∉ text.toList

instance (text : String) : Decidable (OneLine text) :=
  inferInstanceAs (Decidable ('\n' ∉ text.toList))

theorem oneLine_append : OneLine (s ++ t) ↔ OneLine s ∧ OneLine t := by
  rw [OneLine, String.toList_append, List.mem_append, not_or]
  rfl

theorem OneLine.intercalate (hs : OneLine s) :
    ∀ {ts : List String}, (∀ t ∈ ts, OneLine t) → OneLine (s.intercalate ts)
  | [], _ => List.not_mem_nil
  | [t], h => by
    rw [String.intercalate_singleton]
    exact h t (.head _)
  | t :: u :: ts, h => by
    rw [String.intercalate_cons_cons, oneLine_append, oneLine_append]
    exact ⟨⟨h t (.head _), hs⟩, hs.intercalate fun v hv => h v (.tail _ hv)⟩

theorem oneLine_of_valid {n : Decimal.Numeral} (hn : n.Valid) (h : s.toList = n.chars) :
    OneLine s := by
  intro hmem
  rw [h] at hmem
  exact absurd (Decimal.Numeral.isNumberChar_of_mem hn hmem) (by decide)

theorem oneLine_int (n : Int) : OneLine (toString n) :=
  oneLine_of_valid (Decimal.Numeral.valid_ofInt n) (Decimal.Numeral.chars_ofInt n).symm

theorem oneLine_toText (d : Decimal) : OneLine d.toText := by
  rcases d.written_or with ⟨n, hn⟩ | ⟨n, hn, hchars, -⟩
  · rw [hn]
    exact oneLine_int n
  · exact oneLine_of_valid hn hchars

theorem oneLine_literal : ∀ value : Literal, OneLine (literal value)
  | .nil | .boolean false | .boolean true => by decide
  | .integer n => oneLine_int n
  | .decimal d => oneLine_toText d
  | .character c => (delimits_delimited (.inr rfl) [c]).oneLine.1
  | .string s => (delimits_delimited (.inl rfl) s.toList).oneLine.1

theorem oneLine_operator (op : Operator) : OneLine (operator op) := by
  rcases op with (_ | _) | (_ | _ | _ | _ | _ | _) | (_ | _ | _ | _) <;> decide

mutual

theorem oneLine_expr : ∀ e : Expr, (∀ target ∈ e.targets, OneLine target) → OneLine (expr e)
  | .literal value _, _ => by
    unfold expr
    exact oneLine_literal value
  | .group inner _, h => by
    unfold Expr.targets at h
    simp only [expr, oneLine_append]
    exact ⟨⟨by decide, oneLine_expr inner h⟩, by decide⟩
  | .binary op left right _, h => by
    unfold Expr.targets at h
    rw [List.forall_mem_append] at h
    simp only [expr, oneLine_append]
    exact ⟨⟨⟨⟨oneLine_expr left h.1, by decide⟩, oneLine_operator op⟩, by decide⟩,
      oneLine_expr right h.2⟩
  | .var target _, h => by
    unfold Expr.targets at h
    unfold expr
    exact h _ (.head _)
  | .field receiver target _, h => by
    unfold Expr.targets at h
    rw [List.forall_mem_append] at h
    simp only [expr, oneLine_append]
    exact ⟨⟨oneLine_expr receiver h.1, by decide⟩, h.2 _ (.head _)⟩
  | .call function arguments _, h => by
    unfold Expr.targets at h
    rw [List.forall_mem_cons] at h
    simp only [expr, oneLine_append]
    exact ⟨⟨⟨h.1, by decide⟩, .intercalate (by decide) (oneLine_exprs arguments h.2)⟩, by decide⟩
  | .method receiver function arguments _, h => by
    unfold Expr.targets at h
    rw [List.forall_mem_append, List.forall_mem_cons] at h
    simp only [expr, oneLine_append]
    exact ⟨⟨⟨⟨⟨oneLine_expr receiver h.1, by decide⟩, h.2.1⟩, by decide⟩,
      .intercalate (by decide) (oneLine_exprs arguments h.2.2)⟩, by decide⟩

theorem oneLine_exprs : ∀ es : List Expr, (∀ target ∈ exprsTargets es, OneLine target) →
    ∀ text ∈ exprs es, OneLine text
  | [], _ => by
    unfold exprs
    exact fun _ hmem => absurd hmem List.not_mem_nil
  | e :: es, h => by
    unfold exprsTargets at h
    rw [List.forall_mem_append] at h
    unfold exprs
    exact List.forall_mem_cons.2 ⟨oneLine_expr e h.1, oneLine_exprs es h.2⟩

end

/-! ## Margins -/

/-- What stands in front of a line at a depth. -/
def margin (layout : Layout) (depth : Nat) : String :=
  String.join (List.replicate depth layout.indentation)

/-- The text with a margin behind every line break. -/
def withMargin (margin text : String) : String :=
  String.ofList (text.toList.flatMap fun c => if c = '\n' then '\n' :: margin.toList else [c])

theorem withMargin_append (m s t : String) :
    withMargin m (s ++ t) = withMargin m s ++ withMargin m t := by
  simp only [withMargin, String.toList_append, List.flatMap_append, String.ofList_append]

theorem withMargin_newline (m : String) : withMargin m "\n" = "\n" ++ m := by
  apply String.toList_inj.1
  simp [withMargin]

theorem flatMap_of_not_mem (m : List Char) : ∀ {cs : List Char}, '\n' ∉ cs →
    (cs.flatMap fun c => if c = '\n' then '\n' :: m else [c]) = cs
  | [], _ => rfl
  | c :: cs, h => by
    rw [List.mem_cons, not_or] at h
    rw [List.flatMap_cons, if_neg (Ne.symm h.1), flatMap_of_not_mem m h.2]
    rfl

theorem OneLine.withMargin (h : OneLine s) (m : String) : withMargin m s = s := by
  rw [Render.withMargin, flatMap_of_not_mem m.toList h, String.ofList_toList]

/-- Of two margins, the one that was put in later stands in front. -/
theorem withMargin_withMargin {inner : String} (h : OneLine inner) (m s : String) :
    withMargin m (withMargin inner s) = withMargin (m ++ inner) s := by
  simp only [withMargin, String.toList_ofList, List.flatMap_assoc, String.toList_append]
  congr 2
  funext c
  split_ifs
  · rw [List.flatMap_cons, if_pos rfl, flatMap_of_not_mem m.toList h]
    rfl
  · simp [*]

theorem withMargin_empty (s : String) : withMargin "" s = s := by
  apply String.toList_inj.1
  simp only [withMargin, String.toList_ofList]
  induction s.toList with
  | nil => rfl
  | cons c cs ih =>
    rw [List.flatMap_cons, ih]
    split_ifs with h
    · rw [h]
      rfl
    · rfl

theorem margin_succ (layout : Layout) (depth : Nat) :
    margin layout (depth + 1) = margin layout depth ++ layout.indentation := by
  rw [margin, margin, List.replicate_succ', String.join_append, String.join_cons, String.join_nil,
    String.append_empty]

/-! ## Steps that can be moved to any depth -/

/-- Wherever the page stands, the step writes this text with the margin of the page's depth and
leaves the depth as it is, or it fails with this error. -/
def Lays (layout : Layout) (step : Render Unit) : Except Error String → Prop
  | .ok text => ∀ page, step.run page =
      (.ok (), ⟨page.text ++ withMargin (margin layout page.depth) text, page.depth⟩)
  | .error e => ∀ page, (step.run page).1 = .error e

/-- There is one text or one error for all pages. -/
def Movable (layout : Layout) (step : Render Unit) : Prop :=
  ∃ o, Lays layout step o

theorem movable_write (h : OneLine s) : Movable layout (write s) := by
  refine ⟨.ok s, fun page => ?_⟩
  rw [h.withMargin]
  rfl

theorem movable_newline : Movable layout (newline layout) := by
  refine ⟨.ok "\n", fun page => ?_⟩
  rw [withMargin_newline, ← String.append_assoc]
  rfl

theorem movable_pure : Movable layout (pure ()) := by
  refine ⟨.ok "", fun page => ?_⟩
  rw [OneLine.withMargin (by decide), String.append_empty]
  rfl

theorem Movable.bind {step : Render Unit} {next : Unit → Render Unit} (h : Movable layout step)
    (hnext : Movable layout (next ())) : Movable layout (step >>= next) := by
  obtain ⟨e | text, h⟩ := h
  · exact ⟨.error e, fun page => run_bind_error (h page)⟩
  obtain ⟨e | text', hnext⟩ := hnext
  · refine ⟨.error e, fun page => ?_⟩
    rw [run_bind_ok (h page)]
    exact hnext _
  · refine ⟨.ok (text ++ text'), fun page => ?_⟩
    rw [run_bind_ok (h page), hnext, withMargin_append, String.append_assoc]

theorem Movable.lift_bind {α : Type} {o : Except Error α} {next : α → Render Unit}
    (h : ∀ a, o = .ok a → Movable layout (next a)) : Movable layout (liftM o >>= next) := by
  cases o with
  | error e => exact ⟨.error e, fun _ => rfl⟩
  | ok a => exact h a rfl

/-- Runs a step one level deeper. -/
def deeper (step : Render Unit) : Render Unit := do
  indent
  step
  dedent

theorem Movable.deeper {step : Render Unit} (hindentation : OneLine layout.indentation)
    (h : Movable layout step) : Movable layout (deeper step) := by
  have hrun (page : Page) : (Render.deeper step).run page =
      (step >>= fun _ => dedent).run ⟨page.text, page.depth + 1⟩ := rfl
  obtain ⟨e | text, h⟩ := h
  · refine ⟨.error e, fun page => ?_⟩
    rw [hrun]
    exact run_bind_error (h _)
  · refine ⟨.ok (withMargin layout.indentation text), fun page => ?_⟩
    rw [hrun, run_bind_ok (h _), withMargin_withMargin hindentation, ← margin_succ]
    rfl

/-! ## Statements -/

theorem body_cons (r : Registry) (layout : Layout) (s : Stmt) (ss : List Stmt) :
    body r layout (s :: ss) = (do
      write "\x7b"
      deeper (do newline layout; stmt r layout s; lines r layout ss)
      newline layout
      write "\x7d") := by
  simp only [body, deeper, bind_assoc]

/-- The types are spelled on one line, those that were issued. -/
def SpelledOnOneLine (r : Registry) (types : List TypeId) : Prop :=
  ∀ type ∈ types, ∀ name, typeName r type = .ok name → OneLine name

theorem movable_declaration {target : Variable} {value : Option Expr}
    (htype : SpelledOnOneLine r [target.type])
    (htargets : ∀ name ∈ target.target :: (value.map Expr.targets).getD [], OneLine name) :
    Movable layout (declaration r target value) := by
  rw [List.forall_mem_cons] at htargets
  refine .lift_bind fun name hname => ?_
  have hline : OneLine (name ++ " " ++ target.target) := by
    rw [oneLine_append, oneLine_append]
    exact ⟨⟨htype _ (.head _) name hname, by decide⟩, htargets.1⟩
  refine (movable_write hline).bind ?_
  cases value with
  | none => exact movable_write (by decide)
  | some e =>
    refine movable_write ?_
    rw [oneLine_append, oneLine_append]
    exact ⟨⟨by decide, oneLine_expr e htargets.2⟩, by decide⟩

theorem SpelledOnOneLine.append {types types' : List TypeId}
    (h : SpelledOnOneLine r (types ++ types')) :
    SpelledOnOneLine r types ∧ SpelledOnOneLine r types' :=
  List.forall_mem_append.1 h

mutual

theorem movable_stmt (hindentation : OneLine layout.indentation) : ∀ s : Stmt,
    (∀ name ∈ s.targets, OneLine name) → SpelledOnOneLine r s.spelled →
    Movable layout (stmt r layout s)
  | .expression e, h, _ => by
    unfold Stmt.targets at h
    unfold stmt
    exact movable_write (oneLine_append.2 ⟨oneLine_expr e h, by decide⟩)
  | .declaration target value, h, htypes => by
    unfold Stmt.targets at h
    unfold Stmt.spelled at htypes
    unfold stmt
    exact movable_declaration htypes h
  | .assignment target value, h, _ => by
    unfold Stmt.targets at h
    rw [List.forall_mem_append] at h
    unfold stmt
    refine movable_write ?_
    simp only [oneLine_append]
    exact ⟨⟨⟨oneLine_expr target h.1, by decide⟩, oneLine_expr value h.2⟩, by decide⟩
  | .conditional condition thenBody elseBody, h, htypes => by
    unfold Stmt.targets at h
    unfold Stmt.spelled at htypes
    rw [List.forall_mem_append, List.forall_mem_append] at h
    unfold stmt
    refine (movable_write ?_).bind
      ((movable_body hindentation thenBody h.2.1 htypes.append.1).bind ?_)
    · simp only [oneLine_append]
      exact ⟨⟨by decide, oneLine_expr condition h.1⟩, by decide⟩
    · split_ifs
      · exact (movable_write (by decide)).bind
          (movable_body hindentation elseBody h.2.2 htypes.append.2)
      · exact movable_pure
  | .each target items body, h, htypes => by
    unfold Stmt.targets at h
    unfold Stmt.spelled at htypes
    rw [List.forall_mem_cons, List.forall_mem_append] at h
    unfold stmt
    refine (movable_write ?_).bind (movable_body hindentation body h.2.2 htypes)
    simp only [oneLine_append]
    exact ⟨⟨⟨⟨by decide, h.1⟩, by decide⟩, oneLine_expr items h.2.1⟩, by decide⟩
  | .loop condition body, h, htypes => by
    unfold Stmt.targets at h
    unfold Stmt.spelled at htypes
    rw [List.forall_mem_append] at h
    unfold stmt
    refine (movable_write ?_).bind (movable_body hindentation body h.2 htypes)
    simp only [oneLine_append]
    exact ⟨⟨by decide, oneLine_expr condition h.1⟩, by decide⟩
  | .ret value, h, _ => by
    unfold Stmt.targets at h
    unfold stmt
    refine movable_write ?_
    simp only [oneLine_append]
    exact ⟨⟨by decide, oneLine_expr value h⟩, by decide⟩

theorem movable_body (hindentation : OneLine layout.indentation) : ∀ ss : List Stmt,
    (∀ name ∈ blockTargets ss, OneLine name) → SpelledOnOneLine r (blockSpelled ss) →
    Movable layout (body r layout ss)
  | [], _, _ => by
    unfold body
    exact movable_write (by decide)
  | s :: ss, h, htypes => by
    unfold blockTargets at h
    unfold blockSpelled at htypes
    rw [List.forall_mem_append] at h
    have hlines : Movable layout (do newline layout; stmt r layout s; lines r layout ss) :=
      movable_newline.bind ((movable_stmt hindentation s h.1 htypes.append.1).bind
        (movable_lines hindentation ss h.2 htypes.append.2))
    rw [body_cons]
    exact (movable_write (by decide)).bind ((hlines.deeper hindentation).bind
      (movable_newline.bind (movable_write (by decide))))

theorem movable_lines (hindentation : OneLine layout.indentation) : ∀ ss : List Stmt,
    (∀ name ∈ blockTargets ss, OneLine name) → SpelledOnOneLine r (blockSpelled ss) →
    Movable layout (lines r layout ss)
  | [], _, _ => by
    unfold lines
    exact movable_pure
  | s :: ss, h, htypes => by
    unfold blockTargets at h
    unfold blockSpelled at htypes
    rw [List.forall_mem_append] at h
    unfold lines
    exact movable_newline.bind ((movable_stmt hindentation s h.1 htypes.append.1).bind
      (movable_lines hindentation ss h.2 htypes.append.2))

end

theorem Lays.onEmptyPage_eq {step : Render Unit} {o : Except Error String}
    (h : Lays layout step o) : onEmptyPage step = o := by
  change ((step.run Page.empty).1.map fun _ => (step.run Page.empty).2.text) = o
  cases o with
  | ok text =>
    rw [h Page.empty]
    exact congrArg Except.ok (withMargin_empty text)
  | error e =>
    rw [h Page.empty]
    rfl

/-- Wherever a page stands, writing a statement succeeds if it does on an empty page. It leaves the
depth of the page as it is, and adds to the text what it writes on an empty page, with the margin of
that depth behind every line break. Otherwise it fails with the same error. -/
theorem stmt_at_depth {s : Stmt} (hindentation : OneLine layout.indentation)
    (htargets : ∀ name ∈ s.targets, OneLine name) (htypes : SpelledOnOneLine r s.spelled)
    (page page' : Page) :
    ((stmt r layout s).run page = (.ok (), page') ↔
      ∃ text, onEmptyPage (stmt r layout s) = .ok text ∧
        page' = ⟨page.text ++ withMargin (margin layout page.depth) text, page.depth⟩) ∧
      ∀ e, ((stmt r layout s).run page).1 = .error e ↔
        onEmptyPage (stmt r layout s) = .error e := by
  obtain ⟨o, h⟩ := movable_stmt hindentation s htargets htypes
  rw [h.onEmptyPage_eq]
  cases o with
  | ok text =>
    rw [h page]
    refine ⟨⟨fun hrun => ⟨text, rfl, (Prod.mk.inj hrun).2.symm⟩, ?_⟩, fun e => by simp⟩
    rintro ⟨_, ⟨⟩, rfl⟩
    rfl
  | error e =>
    have hpage := h page
    refine ⟨⟨fun hrun => ?_, ?_⟩, fun e' => ?_⟩
    · rw [hrun] at hpage
      cases hpage
    · rintro ⟨text, htext, -⟩
      cases htext
    · rw [hpage, Except.error.injEq, Except.error.injEq]

end Render

/-- A loop inside a conditional, and a declaration in its other branch. -/
def Typed.Stmt.nested : Typed.Stmt :=
  .conditional (.literal (.boolean true) .boolean)
    [.loop (.var (.plain "busy" .boolean) .boolean) [.ret (.literal (.string "a\nb") .string)]]
    [.declaration (.plain "x" .integer) (some (.literal (.integer (-1)) .integer))]

namespace Render

open Typed

/-- Two levels deep, behind text that the page has already. -/
theorem stmt_at_depth_nested :
    OneLine Layout.standard.indentation ∧ (∀ target ∈ Stmt.nested.targets, OneLine target) ∧
      SpelledOnOneLine .builtin Stmt.nested.spelled ∧
      (stmt .builtin .standard .nested).run ⟨"\x7b\n        ", 2⟩ =
        (.ok (), ⟨"\x7b\n        if (true) \x7b\n            while (busy) \x7b\n" ++
          "                return \"a\\nb\";\n            \x7d\n        \x7d else \x7b\n" ++
          "            int x = -1;\n        \x7d", 2⟩) := by
  have hindentation : OneLine Layout.standard.indentation := by decide
  have htargets : ∀ target ∈ Stmt.nested.targets, OneLine target := by decide
  have htypes : SpelledOnOneLine .builtin Stmt.nested.spelled := by
    intro type htype name hname
    cases List.mem_singleton.1 htype
    cases hname
    decide
  refine ⟨hindentation, htargets, htypes, ?_⟩
  exact (stmt_at_depth hindentation htargets htypes _ _).1.2 ⟨_, rfl, by decide +kernel⟩

end Render

end TypedImp
