import TypedImp.Proofs.Render.Token

/-!
# Parentheses

Tokens whose parentheses match can be taken apart where something stands outside of all
parentheses: the parts can be told from the whole (`Closed.split`).
-/

namespace TypedImp.Render

def Token.isParenthesis : Token → Bool
  | opening | closing => true
  | _ => false

/-- All parentheses match, and these tokens stand outside of them. -/
inductive Closed : (outer ts : List Token) → Prop
  | nil : Closed [] []
  | token {t : Token} {outer ts : List Token} (ht : t.isParenthesis = false)
      (h : Closed outer ts) : Closed (t :: outer) (t :: ts)
  | nest {outer outer' inner ts : List Token} (hi : Closed outer' inner) (h : Closed outer ts) :
      Closed outer (.opening :: (inner ++ .closing :: ts))

namespace Closed

variable {outer outer' ts ts' r r' : List Token} {t t' : Token}

theorem append (h : Closed outer ts) (h' : Closed outer' ts') :
    Closed (outer ++ outer') (ts ++ ts') := by
  induction h with
  | nil => exact h'
  | token ht _ ih => exact .token ht ih
  | nest hi _ _ ih =>
    rw [List.cons_append, List.append_assoc, List.cons_append]
    exact .nest hi ih

theorem single (ht : t.isParenthesis = false) : Closed [t] [t] :=
  .token ht .nil

theorem parentheses (h : Closed outer ts) : Closed [] (.opening :: ts ++ [.closing]) :=
  .nest h .nil

theorem closing_inj (h : Closed outer ts) : ∀ {outer' ts' r r' : List Token}, Closed outer' ts' →
    ts ++ .closing :: r = ts' ++ .closing :: r' → ts = ts' ∧ r = r' := by
  induction h with
  | nil =>
    intro outer' ts' r r' h' heq
    cases h' with
    | nil => exact ⟨rfl, (List.cons.inj heq).2⟩
    | token ht _ =>
      rw [← (List.cons.inj heq).1] at ht
      cases ht
    | nest _ _ => cases (List.cons.inj heq).1
  | token ht _ ih =>
    intro outer' ts' r r' h' heq
    cases h' with
    | nil =>
      rw [(List.cons.inj heq).1] at ht
      cases ht
    | token _ h' =>
      obtain ⟨rfl, hrest⟩ := List.cons.inj heq
      obtain ⟨rfl, rfl⟩ := ih h' hrest
      exact ⟨rfl, rfl⟩
    | nest _ _ =>
      rw [(List.cons.inj heq).1] at ht
      cases ht
  | nest hi _ ihi ih =>
    intro outer' ts' r r' h' heq
    cases h' with
    | nil => cases (List.cons.inj heq).1
    | token ht _ =>
      rw [← (List.cons.inj heq).1] at ht
      cases ht
    | nest hi' h' =>
      simp only [List.cons_append, List.append_assoc, List.cons.injEq, true_and] at heq
      obtain ⟨rfl, hrest⟩ := ihi hi' heq
      obtain ⟨rfl, rfl⟩ := ih h' hrest
      exact ⟨rfl, rfl⟩

theorem outer_unique (h : Closed outer ts) : ∀ {outer' : List Token}, Closed outer' ts →
    outer = outer' := by
  induction h with
  | nil =>
    intro outer' h'
    cases h'
    rfl
  | token ht _ ih =>
    intro outer' h'
    cases h' with
    | token _ h' => rw [ih h']
    | nest _ _ => cases ht
  | @nest _ _ inner ts hi h _ ih =>
    intro outer' h'
    generalize hts : Token.opening :: (inner ++ .closing :: ts) = ts' at h'
    cases h' with
    | nil => cases hts
    | token ht _ =>
      rw [← (List.cons.inj hts).1] at ht
      cases ht
    | nest hi' h' =>
      obtain ⟨-, rfl⟩ := hi.closing_inj hi' (List.cons.inj hts).2
      exact ih h'

/-- Tokens can be taken apart at one that stands outside of parentheses, by its place among those
that do. -/
theorem split (h : Closed outer ts) :
    ∀ {outer' ts' : List Token} {t t' : Token} {r r' : List Token},
    Closed outer' ts' → t.isParenthesis = false → t'.isParenthesis = false →
    outer.length = outer'.length → ts ++ t :: r = ts' ++ t' :: r' → ts = ts' ∧ r = r' := by
  induction h with
  | nil =>
    intro outer' ts' t t' r r' h' ht _ hl heq
    cases h' with
    | nil => exact ⟨rfl, (List.cons.inj heq).2⟩
    | token _ _ => cases hl
    | nest _ _ =>
      rw [(List.cons.inj heq).1] at ht
      cases ht
  | token hu _ ih =>
    intro outer' ts' t t' r r' h' ht ht' hl heq
    cases h' with
    | nil => cases hl
    | token _ h' =>
      obtain ⟨rfl, hrest⟩ := List.cons.inj heq
      obtain ⟨rfl, rfl⟩ := ih h' ht ht' (Nat.succ.inj hl) hrest
      exact ⟨rfl, rfl⟩
    | nest _ _ =>
      rw [(List.cons.inj heq).1] at hu
      cases hu
  | nest hi _ _ ih =>
    intro outer' ts' t t' r r' h' ht ht' hl heq
    cases h' with
    | nil =>
      rw [← (List.cons.inj heq).1] at ht'
      cases ht'
    | token hu _ =>
      rw [← (List.cons.inj heq).1] at hu
      cases hu
    | nest hi' h' =>
      simp only [List.cons_append, List.append_assoc, List.cons.injEq, true_and] at heq
      obtain ⟨rfl, hrest⟩ := hi.closing_inj hi' heq
      obtain ⟨rfl, rfl⟩ := ih h' ht ht' hl hrest
      exact ⟨rfl, rfl⟩

end Closed

/-- A list can be taken apart at an element of some sort, by how many there are in front of it. -/
theorem append_cons_inj_of_countP {α : Type} {p : α → Bool} {x x' : α} (hx : p x = true)
    (hx' : p x' = true) : ∀ {front front' back back' : List α},
    front.countP p = front'.countP p → front ++ x :: back = front' ++ x' :: back' →
      front = front' ∧ x = x' ∧ back = back'
  | [], [], _, _, _, heq => ⟨rfl, List.cons.inj heq⟩
  | [], y :: front', _, _, hc, heq => by
    rw [← (List.cons.inj heq).1, List.countP_cons_of_pos hx] at hc
    cases hc
  | y :: front, [], _, _, hc, heq => by
    rw [(List.cons.inj heq).1, List.countP_cons_of_pos hx'] at hc
    cases hc
  | y :: front, y' :: front', back, back', hc, heq => by
    obtain ⟨rfl, hrest⟩ := List.cons.inj heq
    have hcount : front.countP p = front'.countP p := by
      rw [List.countP_cons, List.countP_cons] at hc
      omega
    obtain ⟨rfl, rfl, rfl⟩ := append_cons_inj_of_countP hx hx' hcount hrest
    exact ⟨rfl, rfl, rfl⟩

end TypedImp.Render
