import TypedImp.Proofs.Render.Spelling

/-!
# Texts that tell expressions apart

What stands outside of the parentheses of an expression shows its form: the operator that is applied
last, the receiver of a member, the arguments of a call. Expressions that are legible at the same
place and written with the same tokens are the same expression (`Spells.unique`).
-/

namespace TypedImp.Render

variable {r : Registry} {c : Checker} {rule : List Operator → Nat}

/-! ## What stands outside of parentheses -/

def Token.operator? : Token → Option Operator
  | operator op => some op
  | _ => none

theorem closed_path : ∀ (w : String) (ws : List String), Closed (path w ws) (path w ws)
  | _, [] => .single rfl
  | _, w :: ws => .token rfl (.token rfl (closed_path w ws))

theorem operators_path : ∀ (w : String) (ws : List String),
    (path w ws).filterMap Token.operator? = []
  | _, [] => rfl
  | _, w :: ws => operators_path w ws

theorem comma_not_mem_path : ∀ (w : String) (ws : List String), .comma ∉ path w ws
  | _, _ => by simp [path]

theorem FieldSpelled.closed {target w : String} {suffix : List Token}
    (h : FieldSpelled target w suffix) : Closed [] suffix := by
  cases h with
  | word _ => exact .nil
  | called _ => exact Closed.nil.parentheses

/-- The parentheses of an expression match. Outside of them stand its ungrouped operators and no
comma. -/
structure Shaped (t : Typed.Expr) (outer ts : List Token) : Prop where
  closed : Closed outer ts
  operators : outer.filterMap Token.operator? = t.operators
  comma : .comma ∉ outer

mutual

theorem Spells.shaped : ∀ {t : Typed.Expr} {ts : List Token}, Spells r c rule t ts →
    ∃ outer, Shaped t outer ts
  | _, _, .literal _ _ => ⟨_, .single rfl, rfl, by simp⟩
  | _, _, .group h => by
    obtain ⟨outer, hs⟩ := h.shaped
    exact ⟨[], hs.closed.parentheses, rfl, List.not_mem_nil⟩
  | _, _, .binary hl hr _ _ => by
    obtain ⟨outer, hs⟩ := hl.shaped
    obtain ⟨outer', hs'⟩ := hr.shaped
    refine ⟨_, hs.closed.append (.token rfl hs'.closed), ?_, ?_⟩
    · rw [List.filterMap_append, List.filterMap_cons, hs.operators, hs'.operators]
      rfl
    · simpa using ⟨hs.comma, hs'.comma⟩
  | _, _, .var _ => ⟨_, .single rfl, rfl, by simp⟩
  | _, _, .field hr ho _ hw => by
    obtain ⟨outer, hs⟩ := hr.shaped
    refine ⟨_, hs.closed.append (.token rfl (.token rfl hw.closed)), ?_, ?_⟩
    · rw [List.filterMap_append, hs.operators, ho]
      rfl
    · simpa using hs.comma
  | _, _, .call hs _ _ _ => by
    obtain ⟨outer, hc⟩ := hs.closed
    refine ⟨_, (closed_path _ _).append hc.parentheses, ?_, ?_⟩
    · rw [List.append_nil, operators_path]
      rfl
    · simpa using comma_not_mem_path _ _
  | _, _, .method hr ho hs _ => by
    obtain ⟨outer, hs'⟩ := hr.shaped
    obtain ⟨outer', hc⟩ := hs.closed
    refine ⟨_, hs'.closed.append (.token rfl (.token rfl hc.parentheses)), ?_, ?_⟩
    · rw [List.filterMap_append, hs'.operators, ho]
      rfl
    · simpa using hs'.comma

theorem SpellsAll.closed : ∀ {es : List Typed.Expr} {ts : List Token}, SpellsAll r c rule es ts →
    ∃ outer, Closed outer ts
  | _, _, .nil => ⟨_, .nil⟩
  | _, _, .one h => by
    obtain ⟨outer, hs⟩ := h.shaped
    exact ⟨outer, hs.closed⟩
  | _, _, .cons h hs => by
    obtain ⟨outer, hs'⟩ := h.shaped
    obtain ⟨outer', hc⟩ := hs.closed
    exact ⟨_, hs'.closed.append (.token rfl hc)⟩

end

theorem Shaped.outer_eq {t t' : Typed.Expr} {outer outer' ts ts' : List Token}
    (h : Shaped t outer ts) (h' : Shaped t' outer' ts') (heq : ts = ts') : outer = outer' :=
  h.closed.outer_unique (heq ▸ h'.closed)

theorem Spells.operators_eq {t t' : Typed.Expr} {ts ts' : List Token} (h : Spells r c rule t ts)
    (h' : Spells r c rule t' ts') (heq : ts = ts') : t.operators = t'.operators := by
  obtain ⟨outer, hs⟩ := h.shaped
  obtain ⟨outer', hs'⟩ := h'.shaped
  rw [← hs.operators, ← hs'.operators, hs.outer_eq hs' heq]

/-! ## Taking tokens apart -/

section

variable {outer outer' ts ts' rest rest' : List Token} {w w' : String} {ws : List String}

theorem member_inj (h : Closed outer ts) (h' : Closed outer' ts') (hr : Closed [] rest)
    (hr' : Closed [] rest')
    (heq : ts ++ .dot :: .word w :: rest = ts' ++ .dot :: .word w' :: rest') :
    ts = ts' ∧ w = w' ∧ rest = rest' := by
  have hwhole := h.append (.token (t := .dot) rfl (.token (t := .word w) rfl hr))
  have hwhole' := h'.append (.token (t := .dot) rfl (.token (t := .word w') rfl hr'))
  rw [← heq] at hwhole'
  obtain ⟨houter, hend⟩ := List.append_inj' (hwhole.outer_unique hwhole') rfl
  obtain ⟨rfl, hrest⟩ := h.split h' rfl rfl (congrArg List.length houter) heq
  cases hend
  exact ⟨rfl, rfl, (List.cons.inj hrest).2⟩

/-- The operator that is applied last can be told from how many there are in front of it. -/
theorem binary_inj {left left' right right' : Typed.Expr} {op op' : Operator}
    {right_outer right_outer' : List Token} (hl : Shaped left outer ts)
    (hl' : Shaped left' outer' ts') (hr : Shaped right right_outer rest)
    (hr' : Shaped right' right_outer' rest')
    (hcount : left.operators.length = left'.operators.length)
    (heq : ts ++ .operator op :: rest = ts' ++ .operator op' :: rest') :
    ts = ts' ∧ op = op' ∧ rest = rest' := by
  have hwhole := hl.closed.append (.token (t := .operator op) rfl hr.closed)
  have hwhole' := hl'.closed.append (.token (t := .operator op') rfl hr'.closed)
  have hcountP : outer.countP (·.operator?.isSome) = outer'.countP (·.operator?.isSome) := by
    rw [← List.length_filterMap_eq_countP, ← List.length_filterMap_eq_countP, hl.operators,
      hl'.operators, hcount]
  obtain ⟨rfl, hop, -⟩ := append_cons_inj_of_countP rfl rfl hcountP
    (hwhole.outer_unique (heq ▸ hwhole'))
  obtain ⟨rfl, hrest⟩ := hl.closed.split hl'.closed rfl rfl rfl heq
  cases hop
  exact ⟨rfl, rfl, hrest⟩

def Token.isComma : Token → Bool
  | comma => true
  | _ => false

theorem countP_comma {t : Typed.Expr} (h : Shaped t outer ts) :
    outer.countP Token.isComma = 0 := by
  rw [List.countP_eq_zero]
  intro x hx hcomma
  cases x with
  | comma => exact h.comma hx
  | _ => cases hcomma

theorem comma_inj {e e' : Typed.Expr} {rest_outer rest_outer' : List Token}
    (h : Shaped e outer ts) (h' : Shaped e' outer' ts') (hr : Closed rest_outer rest)
    (hr' : Closed rest_outer' rest') (heq : ts ++ .comma :: rest = ts' ++ .comma :: rest') :
    ts = ts' ∧ rest = rest' := by
  have hwhole := h.closed.append (.token (t := .comma) rfl hr)
  have hwhole' := h'.closed.append (.token (t := .comma) rfl hr')
  obtain ⟨rfl, -, -⟩ := append_cons_inj_of_countP (p := Token.isComma) rfl rfl
    ((countP_comma h).trans (countP_comma h').symm) (hwhole.outer_unique (heq ▸ hwhole'))
  exact h.closed.split h'.closed rfl rfl rfl heq

theorem comma_ne {e e' : Typed.Expr} {rest_outer : List Token} (h : Shaped e outer ts)
    (h' : Shaped e' outer' ts') (hr : Closed rest_outer rest) : ts ≠ ts' ++ .comma :: rest := by
  intro heq
  have hwhole := h'.closed.append (.token (t := .comma) rfl hr)
  apply h.comma
  rw [h.closed.outer_unique (heq ▸ hwhole)]
  simp

theorem path_concat (w : String) (ws : List String) (w' : String) :
    path w (ws ++ [w']) = path w ws ++ [.dot, .word w'] := by
  simp [path]

theorem path_inj : ∀ {w w' : String} {ws ws' : List String}, path w ws = path w' ws' →
    w = w' ∧ ws = ws'
  | w, w', [], [], h => by
    cases h
    exact ⟨rfl, rfl⟩
  | _, _, [], _ :: _, h => by simp [path] at h
  | _, _, _ :: _, [], h => by simp [path] at h
  | w, w', v :: ws, v' :: ws', h => by
    obtain ⟨hw, hrest⟩ := List.cons.inj h
    have htail : path v ws = path v' ws' := (List.cons.inj hrest).2
    obtain ⟨rfl, rfl⟩ := path_inj htail
    exact ⟨Token.word.inj hw, rfl⟩

end

/-- A receiver without parentheses starts with a variable. -/
theorem Spells.root : ∀ {t : Typed.Expr} {ts : List Token}, Spells r c rule t ts →
    (∀ x ∈ ts, x = .dot ∨ ∃ w, x = .word w) →
    ∃ name v rest, c.lookupVariable name = .ok v ∧ ts = .word v.target :: rest
  | _, _, .literal _ _, hx => by simpa using hx _ (.head _)
  | _, _, .group _, hx => by simpa using hx _ (.head _)
  | _, _, .binary _ _ _ _, hx => by
    simpa using hx _ (List.mem_append_right _ (.head _))
  | _, _, .var h, _ => ⟨_, _, [], h, rfl⟩
  | _, _, .field hr _ _ _, hx => by
    obtain ⟨name, v, rest, hv, rfl⟩ := hr.root fun x hmem => hx x (List.mem_append_left _ hmem)
    exact ⟨name, v, _, hv, rfl⟩
  | _, _, .call _ _ _ _, hx => by
    simpa using hx _ (List.mem_append_right _ (.head _))
  | _, _, .method _ _ _ _, hx => by
    simpa using hx _ (List.mem_append_right _ (.tail _ (.tail _ (.head _))))

/-- A call of a function is not written as a member of something. -/
theorem call_ne_member (ha : SpelledApart r c) {name w w' : String} {arity : Nat} {f : Function}
    {ws : List String} {inner outer rest ts outer' : List Token} {receiver : Typed.Expr}
    (h : c.lookupFunction name arity = .ok f) (ht : f.target = ".".intercalate (w :: ws))
    (hi : Closed outer inner) (hr : Spells r c rule receiver ts) (hs : Shaped receiver outer' ts)
    (hrest : Closed [] rest) :
    path w ws ++ (.opening :: inner ++ [.closing]) ≠ ts ++ .dot :: .word w' :: rest := by
  intro heq
  have hwhole := (closed_path w ws).append hi.parentheses
  have hwhole' := hs.closed.append (.token (t := .dot) rfl (.token (t := .word w') rfl hrest))
  rw [heq] at hwhole
  have houter := hwhole.outer_unique hwhole'
  rw [List.append_nil] at houter
  rcases List.eq_nil_or_concat ws with rfl | ⟨ws, w'', rfl⟩
  · have := congrArg List.length houter
    simp [path] at this
  · rw [List.concat_eq_append, path_concat] at houter heq
    obtain ⟨houter, -⟩ := List.append_inj' houter rfl
    rw [List.append_assoc] at heq
    obtain ⟨rfl, -⟩ := (closed_path w ws).split hs.closed rfl rfl (congrArg List.length houter) heq
    obtain ⟨name', v, tail, hv, hpath⟩ := hr.root fun x hx => by
      simp only [path, List.mem_cons, List.mem_flatMap, List.not_mem_nil, or_false] at hx
      rcases hx with rfl | ⟨_, -, rfl | rfl⟩
      · exact .inr ⟨_, rfl⟩
      · exact .inl rfl
      · exact .inr ⟨_, rfl⟩
    have hw : w = v.target := Token.word.inj (List.cons.inj hpath).1
    apply @SpelledApart.function_not_member _ _ ha _ _ (".".intercalate (ws ++ [w''])) _ _ _ h hv
    rw [ht, ← hw, List.concat_eq_append, String.intercalate_cons_of_ne_nil (by simp)]

theorem Spells.exists_cons {t : Typed.Expr} {ts : List Token} (h : Spells r c rule t ts) :
    ∃ x xs, ts = x :: xs := by
  refine List.exists_cons_of_ne_nil ?_
  cases h <;> simp [path]

/-! ## The expression of tokens -/

section

variable {t receiver : Typed.Expr} {outer ts rest : List Token}

theorem Spells.of_single {x : Token} (h : Spells r c rule t ts) (heq : [x] = ts) :
    (∃ value type, value.check = .ok type ∧ x = .literal value ∧ t = .literal value type) ∨
    ∃ name v, c.lookupVariable name = .ok v ∧ x = .word v.target ∧ t = .var v v.type := by
  have hlength := congrArg List.length heq
  cases h with
  | literal h _ => exact .inl ⟨_, _, h, (List.cons.inj heq).1, rfl⟩
  | var h => exact .inr ⟨_, _, h, (List.cons.inj heq).1, rfl⟩
  | binary hl _ _ _ =>
    obtain ⟨x, xs, rfl⟩ := hl.exists_cons
    simp at hlength
  | _ =>
    simp only [path, List.length_append, List.length_cons, List.length_nil] at hlength
    omega

/-- If everything is inside of parentheses, it is a group. -/
theorem Spells.of_closed (h : Spells r c rule t ts) (hc : Closed [] ts) :
    ∃ inner ts', Spells r c rule inner ts' ∧ ts = .opening :: ts' ++ [.closing] ∧
      t = .group inner inner.type := by
  cases h with
  | literal _ _ => cases (Closed.single rfl).outer_unique hc
  | group h => exact ⟨_, _, h, rfl, rfl⟩
  | binary hl hr _ _ =>
    obtain ⟨_, hs⟩ := hl.shaped
    obtain ⟨_, hs'⟩ := hr.shaped
    have := (hs.closed.append (.token (t := .operator _) rfl hs'.closed)).outer_unique hc
    simp at this
  | var _ => cases (Closed.single rfl).outer_unique hc
  | field hr _ _ hw =>
    obtain ⟨_, hs⟩ := hr.shaped
    have := (hs.closed.append (.token (t := .dot) rfl (.token rfl hw.closed))).outer_unique hc
    simp at this
  | call hs _ _ _ =>
    obtain ⟨_, hs⟩ := hs.closed
    have := ((closed_path _ _).append hs.parentheses).outer_unique hc
    simp [path] at this
  | method hr _ hs _ =>
    obtain ⟨_, hr⟩ := hr.shaped
    obtain ⟨_, hs⟩ := hs.closed
    have := (hr.closed.append (.token (t := .dot) rfl (.token rfl hs.parentheses))).outer_unique hc
    simp at this

/-- Behind an expression without ungrouped operators stands a field or a method. -/
theorem Spells.of_member (ha : SpelledApart r c) {w : String} (h : Spells r c rule t ts)
    (hr : Spells r c rule receiver rest) {suffix : List Token} (ho : receiver.operators = [])
    (hc : Closed [] suffix) (heq : rest ++ .dot :: .word w :: suffix = ts) :
    (∃ receiver' name f, Spells r c rule receiver' rest ∧
      r.field receiver'.type name = .ok f ∧ FieldSpelled f.target w suffix ∧
      t = .field receiver' f.toVariable f.type) ∨
    ∃ receiver' arguments inner name m, Spells r c rule receiver' rest ∧
      SpellsAll r c rule arguments inner ∧
      r.method receiver'.type name arguments.length = .ok m ∧ w = m.target ∧
      suffix = .opening :: inner ++ [.closing] ∧
      t = .method receiver' m.toFunction arguments m.result := by
  obtain ⟨outer, hs⟩ := hr.shaped
  have hwhole := hs.closed.append (.token (t := .dot) rfl (.token (t := .word w) rfl hc))
  cases h with
  | literal _ _ =>
    have := congrArg List.length heq
    simp at this
    omega
  | group h =>
    obtain ⟨_, hs'⟩ := h.shaped
    have := hwhole.outer_unique (heq ▸ hs'.closed.parentheses)
    simp at this
  | binary hl hr' h hrule =>
    obtain ⟨outer', hs'⟩ := (Spells.binary hl hr' h hrule).shaped
    have houter := hwhole.outer_unique (heq ▸ hs'.closed)
    have hops := hs'.operators
    rw [← houter, List.filterMap_append, hs.operators, ho] at hops
    exact (List.append_ne_nil_of_right_ne_nil _ (List.cons_ne_nil _ _) hops.symm).elim
  | var _ =>
    have := congrArg List.length heq
    simp at this
    omega
  | field hr' _ h hw =>
    obtain ⟨_, hs'⟩ := hr'.shaped
    obtain ⟨rfl, rfl, rfl⟩ := member_inj hs.closed hs'.closed hc hw.closed heq
    exact .inl ⟨_, _, _, hr', h, hw, rfl⟩
  | call hs' h _ ht =>
    obtain ⟨_, hi⟩ := hs'.closed
    exact (call_ne_member ha h ht hi hr hs hc heq.symm).elim
  | method hr' _ hs' h =>
    obtain ⟨_, hs''⟩ := hr'.shaped
    obtain ⟨_, hi⟩ := hs'.closed
    obtain ⟨rfl, rfl, rfl⟩ := member_inj hs.closed hs''.closed hc hi.parentheses heq
    exact .inr ⟨_, _, _, _, _, hr', hs', h, rfl, rfl, rfl⟩

/-- Words in front of parentheses are a call of a function. -/
theorem Spells.of_call (ha : SpelledApart r c) {w : String} {ws : List String}
    {inner : List Token} {name : String} {arity : Nat} {f : Function}
    (hf : c.lookupFunction name arity = .ok f) (ht : f.target = ".".intercalate (w :: ws))
    (h : Spells r c rule t ts) (hc : Closed outer inner)
    (heq : path w ws ++ (.opening :: inner ++ [.closing]) = ts) :
    ∃ arguments name f', SpellsAll r c rule arguments inner ∧
      c.lookupFunction name arguments.length = .ok f' ∧ f'.target = f.target ∧
      t = .call f' arguments f'.result := by
  have hwhole := (closed_path w ws).append hc.parentheses
  rw [List.append_nil] at hwhole
  cases h with
  | literal _ _ =>
    have := congrArg List.length heq
    simp [path] at this
  | group h =>
    obtain ⟨_, hs⟩ := h.shaped
    have := hwhole.outer_unique (heq ▸ hs.closed.parentheses)
    simp [path] at this
  | binary hl hr h hrule =>
    obtain ⟨outer', hs⟩ := (Spells.binary hl hr h hrule).shaped
    have houter := hwhole.outer_unique (heq ▸ hs.closed)
    have hops := hs.operators
    rw [← houter, operators_path] at hops
    simp [Typed.Expr.operators] at hops
  | var _ =>
    have := congrArg List.length heq
    simp [path] at this
  | field hr _ _ hw =>
    obtain ⟨_, hs⟩ := hr.shaped
    exact (call_ne_member ha hf ht hc hr hs hw.closed heq).elim
  | @call _ _ _ w' ws' _ hs h _ ht' =>
    obtain ⟨_, hi⟩ := hs.closed
    have hwhole' := (closed_path w' ws').append hi.parentheses
    rw [← heq, List.append_nil] at hwhole'
    obtain ⟨rfl, rfl⟩ := path_inj (hwhole.outer_unique hwhole')
    have hinner := List.append_cancel_left heq
    obtain ⟨rfl, -⟩ := hc.closing_inj hi (List.cons.inj hinner).2
    exact ⟨_, _, _, hs, h, ht'.trans ht.symm, rfl⟩
  | method hr _ hs _ =>
    obtain ⟨_, hs'⟩ := hr.shaped
    obtain ⟨_, hi⟩ := hs.closed
    exact (call_ne_member ha hf ht hc hr hs' hi.parentheses heq).elim

end

theorem SpellsAll.eq_nil {es : List Typed.Expr} {ts : List Token} (h : SpellsAll r c rule es ts)
    (heq : ts = []) : es = [] := by
  cases h with
  | nil => rfl
  | one h => simpa [heq] using h.exists_cons
  | cons _ _ => simp at heq

theorem FieldSpelled.target_eq {target target' w : String} {suffix : List Token}
    (h : FieldSpelled target w suffix) (h' : FieldSpelled target' w suffix) : target = target' := by
  cases h <;> cases h' <;> rfl

theorem field_ne_method (ha : SpelledApart r c) {type : TypeId} {name name' : String}
    {f : FieldMember} {m : MethodMember} {arguments : List Typed.Expr} {inner : List Token}
    (h : r.field type name = .ok f) (h' : r.method type name' arguments.length = .ok m)
    (hs : SpellsAll r c rule arguments inner)
    (hw : FieldSpelled f.target m.target (.opening :: inner ++ [.closing])) : False := by
  generalize hsuffix : Token.opening :: inner ++ [.closing] = suffix at hw
  generalize htarget : f.target = target at hw
  cases hw with
  | word _ => cases hsuffix
  | called _ =>
    obtain rfl := hs.eq_nil (List.append_cancel_right (List.cons.inj hsuffix).2)
    exact ha.field_not_method h h' htarget

mutual

/-- Tokens tell the expression that they are written for. -/
theorem Spells.unique (ha : SpelledApart r c) : ∀ {t : Typed.Expr} {ts : List Token},
    Spells r c rule t ts → ∀ {t' : Typed.Expr}, Spells r c rule t' ts → t = t'
  | _, _, .literal hcheck _, t', h' => by
    rcases h'.of_single rfl with ⟨_, _, hcheck', hx, rfl⟩ | ⟨_, _, _, hx, -⟩
    · cases hx
      cases hcheck.symm.trans hcheck'
      rfl
    · cases hx
  | _, _, .group h, t', h' => by
    obtain ⟨_, hs⟩ := h.shaped
    obtain ⟨inner, ts', hinner, hts, rfl⟩ := h'.of_closed hs.closed.parentheses
    obtain rfl := List.append_cancel_right (List.cons.inj hts).2
    rw [h.unique ha hinner]
  | _, _, .binary hl hr ho hrule, t', h' => by
    have hops := (Spells.binary hl hr ho hrule).operators_eq h' rfl
    generalize hts : _ ++ _ :: _ = ts at h'
    cases h' with
    | binary hl' hr' ho' hrule' =>
      obtain ⟨_, hsl⟩ := hl.shaped
      obtain ⟨_, hsr⟩ := hr.shaped
      obtain ⟨_, hsl'⟩ := hl'.shaped
      obtain ⟨_, hsr'⟩ := hr'.shaped
      unfold Typed.Expr.operators at hops
      have hcount := hrule.trans ((congrArg rule hops).trans hrule'.symm)
      obtain ⟨rfl, rfl, rfl⟩ := binary_inj hsl hsl' hsr hsr' hcount hts
      obtain rfl := hl.unique ha hl'
      obtain rfl := hr.unique ha hr'
      cases ho.symm.trans ho'
      rfl
    | _ => simp [Typed.Expr.operators] at hops
  | _, _, .var h, t', h' => by
    rcases h'.of_single rfl with ⟨_, _, _, hx, -⟩ | ⟨_, _, hv, hx, rfl⟩
    · cases hx
    · rw [ha.variable_inj h hv (Token.word.inj hx)]
  | _, _, .field hr ho h hw, t', h' => by
    rcases h'.of_member ha hr ho hw.closed rfl with
      ⟨_, _, f, hr', hf, hw', rfl⟩ | ⟨_, arguments, inner, _, m, hr', hs', hm, hw', hsuffix, rfl⟩
    · obtain rfl := hr.unique ha hr'
      have heq := ha.field_inj h hf (hw.target_eq hw')
      exact congrArg (fun v => Typed.Expr.field _ v v.type) heq
    · obtain rfl := hr.unique ha hr'
      subst hsuffix hw'
      exact (field_ne_method ha h hm hs' hw).elim
  | _, _, .call hs h hw ht, t', h' => by
    obtain ⟨_, hi⟩ := hs.closed
    obtain ⟨arguments, _, f, hs', hf, htarget, rfl⟩ := h'.of_call ha h ht hi rfl
    obtain rfl := hs.unique ha hs'
    rw [ha.function_inj h hf htarget.symm]
  | _, _, .method hr ho hs h, t', h' => by
    obtain ⟨_, hi⟩ := hs.closed
    rcases h'.of_member ha hr ho hi.parentheses rfl with
      ⟨_, _, f, hr', hf, hw', rfl⟩ | ⟨_, arguments, inner, _, m, hr', hs', hm, hw', hsuffix, rfl⟩
    · obtain rfl := hr.unique ha hr'
      exact (field_ne_method ha hf h hs hw').elim
    · obtain rfl := hr.unique ha hr'
      obtain rfl := List.append_cancel_right (List.cons.inj hsuffix).2
      obtain rfl := hs.unique ha hs'
      have heq := ha.method_inj h hm hw'
      exact congrArg (fun f => Typed.Expr.method _ f _ f.result) heq

theorem SpellsAll.unique (ha : SpelledApart r c) : ∀ {es : List Typed.Expr} {ts : List Token},
    SpellsAll r c rule es ts → ∀ {es' : List Typed.Expr}, SpellsAll r c rule es' ts → es = es'
  | _, _, .nil, es', h' => (h'.eq_nil rfl).symm
  | _, ts, .one h, es', h' => by
    obtain ⟨_, hs⟩ := h.shaped
    generalize hts : ts = ts' at h'
    cases h' with
    | nil => simpa [hts] using h.exists_cons
    | one h' =>
      subst hts
      rw [h.unique ha h']
    | cons h' hrest =>
      obtain ⟨_, hs'⟩ := h'.shaped
      obtain ⟨_, hc⟩ := hrest.closed
      exact (comma_ne hs hs' hc hts).elim
  | _, _, .cons h hrest, es', h' => by
    obtain ⟨_, hs⟩ := h.shaped
    obtain ⟨_, hc⟩ := hrest.closed
    generalize hts : _ ++ Token.comma :: _ = ts at h'
    cases h' with
    | nil => simp at hts
    | one h' =>
      obtain ⟨_, hs'⟩ := h'.shaped
      exact (comma_ne hs' hs hc hts.symm).elim
    | cons h' hrest' =>
      obtain ⟨_, hs'⟩ := h'.shaped
      obtain ⟨_, hc'⟩ := hrest'.closed
      obtain ⟨rfl, rfl⟩ := comma_inj hs hs' hc hc' hts
      rw [h.unique ha h', hrest.unique ha hrest']

end

end TypedImp.Render
