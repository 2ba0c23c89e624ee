import TypedImp.Proofs.Machine.Passage

/-!
# Outer and local scopes

The outermost scope and those of objects come first in a machine and lie inside no other scope. All
scopes after them are local to blocks and calls: each lies inside the outermost scope or another
local one (`Machine.Laid`). Since calls begin in the outermost scope, an evaluation finds its way
into no local scope that was there before it (`Effect.spares`).
-/

namespace TypedImp

namespace Machine

/-- The first `k` scopes are the outermost one and those of objects; all others are local. -/
structure Laid (k : Nat) (m : Machine) : Prop where
  pos : 0 < k
  le_size : k ≤ m.scopes.size
  outer (s : ScopeId) (h : s.index < k) : m.scopes.parent? s = none
  inner (s : ScopeId) (h : k ≤ s.index) (hs : s.index < m.scopes.size) :
    ∃ p, m.scopes.parent? s = some p ∧ p.index < s.index ∧ (p = root ∨ k ≤ p.index)
  current : m.current = root ∨ k ≤ m.current.index
  current_lt : m.current.index < m.scopes.size

namespace Laid

variable {k : Nat} {m m' : Machine} {p s : ScopeId}

theorem root_lt (h : m.Laid k) : root.index < m.scopes.size :=
  Nat.lt_of_lt_of_le h.pos h.le_size

theorem of_aligned (h : m.Laid k) (ha : m.Aligned m') : m'.Laid k where
  pos := h.pos
  le_size := ha.size ▸ h.le_size
  outer s hs := (ha.parent s).trans (h.outer s hs)
  inner s hk hs := by
    obtain ⟨p, hp, hlt⟩ := h.inner s hk (ha.size ▸ hs)
    exact ⟨p, (ha.parent s).trans hp, hlt⟩
  current := ha.current ▸ h.current
  current_lt := ha.size ▸ ha.current ▸ h.current_lt

theorem entered (h : m.Laid k) (hp : p = root ∨ k ≤ p.index) (hlt : p.index < m.scopes.size) :
    (Exec.entered m p).Laid k where
  pos := h.pos
  le_size := Nat.le_trans h.le_size (by simp [Exec.entered, Arena.size_enter])
  outer s hs :=
    (Arena.parent?_enter_of_lt (Nat.lt_of_lt_of_le hs h.le_size) _).trans (h.outer s hs)
  inner s hk hs := by
    rcases Nat.lt_succ_iff_lt_or_eq.1 (Arena.size_enter m.scopes (some p) ▸ hs) with hs | hs
    · obtain ⟨q, hq, hlt⟩ := h.inner s hk hs
      exact ⟨q, (Arena.parent?_enter_of_lt hs _).trans hq, hlt⟩
    · obtain ⟨i⟩ := s
      obtain rfl : i = m.scopes.size := hs
      exact ⟨p, Arena.parent?_enter_next .., hlt, hp⟩
  current := .inr h.le_size
  current_lt := by simp [Exec.entered, Arena.size_enter, Arena.next]

theorem entered_current (h : m.Laid k) : (Exec.entered m m.current).Laid k :=
  h.entered h.current h.current_lt

theorem entered_root (h : m.Laid k) : (Exec.entered m root).Laid k :=
  h.entered (.inl rfl) h.root_lt

theorem left {m₁ : Machine} (h : m.Laid k) (h₁ : m₁.Laid k)
    (hsize : m.scopes.size ≤ m₁.scopes.size) : (Exec.left m m₁).Laid k where
  pos := h.pos
  le_size := size_left hsize ▸ h.le_size
  outer s hs := (parent?_left (Nat.lt_of_lt_of_le hs h.le_size)).trans (h₁.outer s hs)
  inner s hk hs := by
    rw [size_left hsize] at hs
    rw [parent?_left hs]
    exact h₁.inner s hk (Nat.lt_of_lt_of_le hs hsize)
  current := h.current
  current_lt := size_left hsize ▸ h.current_lt

/-- The chain of every live scope ends at a scope without parent. -/
theorem path (h : m.Laid k) : ∀ {s : ScopeId}, s.index < m.scopes.size →
    ∃ l, m.scopes.Path s l
  | s, hs => by
    obtain ⟨scope, hscope⟩ := Arena.exists_get? hs
    by_cases hk : s.index < k
    · have hp := h.outer s hk
      rw [Arena.parent?, hscope] at hp
      exact ⟨_, .root hscope hp⟩
    · obtain ⟨p, hp, hlt, -⟩ := h.inner s (Nat.le_of_not_lt hk) hs
      obtain ⟨l, hl⟩ := h.path (s := p) (Nat.lt_trans hlt hs)
      rw [Arena.parent?, hscope] at hp
      exact ⟨_, .child hscope hp hlt hl⟩
termination_by s => s.index

/-- The chains of local scopes end at the outermost one. -/
theorem exists_root_mem (h : m.Laid k) : ∀ {s : ScopeId}, s = root ∨ k ≤ s.index →
    s.index < m.scopes.size → ∃ l, m.scopes.Path s l ∧ ∃ scope, (root, scope) ∈ l
  | s, hs, hlt => by
    obtain ⟨scope, hscope⟩ := Arena.exists_get? hlt
    by_cases hk : k ≤ s.index
    · obtain ⟨p, hp, hbefore, hnext⟩ := h.inner s hk hlt
      obtain ⟨l, hl, top, hmem⟩ := h.exists_root_mem hnext (Nat.lt_trans hbefore hlt)
      rw [Arena.parent?, hscope] at hp
      exact ⟨_, .child hscope hp hbefore hl, top, .tail _ hmem⟩
    · obtain rfl := hs.resolve_right hk
      have hp := h.outer root h.pos
      rw [Arena.parent?, hscope] at hp
      exact ⟨_, .root hscope hp, scope, .head _⟩
termination_by s => s.index

/-- From where execution is, a function of the outermost scope is found, or another one that hides
it. -/
theorem exists_lookupFunction (h : m.Laid k) {funs : Table (String × Nat) Callable}
    (hfuns : m.scopes.functions? root = some funs) {name : String} {arity : Nat}
    (hbound : (funs.get? (name, arity)).isSome) :
    ∃ callable, m.lookupFunction name arity = .ok callable := by
  obtain ⟨l, hl, top, hmem⟩ := h.exists_root_mem h.current h.current_lt
  rw [Arena.functions?, (hl.mem _ hmem).2] at hfuns
  cases hfuns
  have hfound : (m.scopes.findFunction? m.current name arity).isSome := by
    rw [hl.findFunction?, List.findSome?_isSome_iff]
    exact ⟨_, hmem, hbound⟩
  obtain ⟨callable, hcallable⟩ := Option.isSome_iff_exists.1 hfound
  exact ⟨callable, Arena.lookupFunction_eq_ok.2 hcallable⟩

/-- What is found in an outer scope lies in that scope itself. -/
theorem eq_of_findVariable? (h : m.Laid k) (hs : s.index < k) {name : String} {v : Value}
    {t : ScopeId} (hfind : m.scopes.findVariable? s name = some (t, v)) : t = s := by
  refine Arena.of_findVariable? (P := (· = s)) ?_ rfl hfind
  rintro _ q rfl hq
  rw [h.outer _ hs] at hq
  cases hq

end Laid

/-- Nothing leads from the scopes beyond the first `n` to a local one among these, nor does a
statement begin in such a one. -/
structure Fenced (n : Nat) (stretch : Stretch) (m : Machine) : Prop where
  le_size : n ≤ m.scopes.size
  parent (s p : ScopeId) (hs : n ≤ s.index) (h : m.scopes.parent? s = some p) :
    p = root ∨ n ≤ p.index
  current (declared : List String) (h : stretch = .executing declared) :
    m.current = root ∨ n ≤ m.current.index

namespace Fenced

variable {n k : Nat} {stretch stretch' : Stretch} {m m' : Machine} {p : ScopeId}

theorem of_aligned (h : m.Fenced n stretch) (ha : m.Aligned m')
    (hcurrent : ∀ declared, stretch' = .executing declared → ∃ d, stretch = .executing d) :
    m'.Fenced n stretch' where
  le_size := ha.size ▸ h.le_size
  parent s p hs hp := h.parent s p hs ((ha.parent s).symm.trans hp)
  current declared hd := by
    obtain ⟨d, hd⟩ := hcurrent declared hd
    exact ha.current ▸ h.current d hd

theorem entered (h : m.Fenced n stretch) (hp : p = root ∨ n ≤ p.index) :
    (Exec.entered m p).Fenced n stretch' where
  le_size := Nat.le_trans h.le_size (by simp [Exec.entered, Arena.size_enter])
  parent s q hs hq := by
    have hlt := Arena.lt_size_of_parent? hq
    rcases Nat.lt_succ_iff_lt_or_eq.1 (Arena.size_enter m.scopes (some p) ▸ hlt) with hlt | hlt
    · exact h.parent s q hs ((Arena.parent?_enter_of_lt hlt _).symm.trans hq)
    · obtain ⟨i⟩ := s
      obtain rfl : i = m.scopes.size := hlt
      cases (Arena.parent?_enter_next ..).symm.trans hq
      exact hp
  current _ _ := .inr h.le_size

/-- What is found from beyond the fence lies there or in the outermost scope. -/
theorem of_findVariable? (h : m.Fenced n stretch) (hm : m.Laid k) {s t : ScopeId} {name : String}
    {v : Value} (hs : s = root ∨ n ≤ s.index)
    (hfind : m.scopes.findVariable? s name = some (t, v)) : t = root ∨ n ≤ t.index := by
  refine Arena.of_findVariable? (P := fun t => t = root ∨ n ≤ t.index) ?_ hs hfind
  rintro q p (rfl | hq) hp
  · rw [hm.outer root hm.pos] at hp
    cases hp
  · exact h.parent q p hq hp

end Fenced

end Machine

namespace Stock

open Exec

variable {r : Registry}

/-- Objects have their members in outer scopes, and methods are defined in the outermost one. -/
structure Outer (S : Stock r) (k : Nat) : Prop where
  members {v : Value} {s : ScopeId} (hv : S.good v) (h : v.members = some s) : s.index < k
  closure {key : String × Nat} {method : Typed.Method} {closure : ScopeId}
    (h : S.bound key (.method method closure)) : closure = Machine.root

variable {S : Stock r} {k : Nat} {m m' : Machine}

/-- Local scopes on this side of a fence stay as they are. -/
theorem Effect.spares {stretch : Stretch} (h : S.Effect stretch m m') (hS : S.Outer k) {n : Nat}
    (hm : m.Laid k) (hn : m.Fenced n stretch) {s : ScopeId} (hk : k ≤ s.index)
    (hs : s.index < n) : m'.scopes.get? s = m.scopes.get? s := by
  have hne {t : ScopeId} (ht : t.index < k ∨ n ≤ t.index) : s ≠ t := by
    rintro rfl
    omega
  have hroot {t : ScopeId} (ht : t = Machine.root ∨ n ≤ t.index) : t.index < k ∨ n ≤ t.index := by
    rcases ht with rfl | ht
    · exact .inl hm.pos
    · exact .inr ht
  induction h with
  | rest | print => rfl
  | call h body ih =>
    obtain rfl := hS.closure h
    have hlt := Nat.lt_of_lt_of_le hs hn.le_size
    refine (Machine.get?_left hlt).trans ?_
    refine (ih hm.entered_root (hn.entered (.inl rfl))).trans ?_
    exact Arena.get?_enter_of_lt hlt _
  | block body ih =>
    have hlt := Nat.lt_of_lt_of_le hs hn.le_size
    refine (Machine.get?_left hlt).trans ?_
    refine (ih hm.entered_current (hn.entered (hn.current _ rfl))).trans ?_
    exact Arena.get?_enter_of_lt hlt _
  | next h h' ih ih' =>
    have ha := h.kept.toAligned
    exact (ih' (hm.of_aligned ha) (hn.of_aligned ha nofun)).trans (ih hm hn)
  | evaluate _ ih =>
    exact ih hm { hn with current := nofun }
  | assign ht hv ok =>
    obtain ⟨t, hfind, rfl⟩ := Arena.setVariable_eq_ok.1 ok
    refine (Arena.get?_modify ..).trans (if_neg (hne ?_))
    rcases ht with rfl | ⟨object, ho, hmembers⟩
    · exact hroot (hn.of_findVariable? hm (hn.current _ rfl) hfind)
    · have hlt := hS.members ho hmembers
      exact .inl (hm.eq_of_findVariable? hlt hfind ▸ hlt)
  | declare hv ok =>
    obtain ⟨-, rfl⟩ := Arena.defineVariable_eq_ok.1 ok
    exact (Arena.get?_modify ..).trans (if_neg (hne (hroot (hn.current _ rfl))))
  | andThen h h' ih ih' =>
    have ha := h.kept.toAligned
    refine (ih' (hm.of_aligned ha) (hn.of_aligned ha fun _ _ => ⟨_, rfl⟩)).trans (ih hm ?_)
    exact { hn with current := fun _ _ => hn.current _ rfl }

/-- Evaluation leaves all local scopes as they are. -/
theorem Effect.spares_locals (h : S.Effect .evaluating m m') (hS : S.Outer k) (hm : m.Laid k)
    {s : ScopeId} (hk : k ≤ s.index) : m'.scopes.get? s = m.scopes.get? s := by
  by_cases hs : s.index < m.scopes.size
  · refine h.spares hS hm ⟨Nat.le_refl _, fun t p ht hp => ?_, nofun⟩ hk hs
    exact absurd (Arena.lt_size_of_parent? hp) (Nat.not_lt_of_le ht)
  · have hs := Nat.le_of_not_lt hs
    rw [Arena.get?_eq_none hs, Arena.get?_eq_none (h.kept.size ▸ hs)]

theorem laid_of_passes (hS : S.Outer k) (h : Relation.ReflTransGen S.Passes m m')
    (hm : m.Laid k) : m'.Laid k := by
  induction h with
  | refl => exact hm
  | tail _ h ih =>
    cases h with
    | work h => exact ih.of_aligned h.aligned
    | block => exact ih.entered_current
    | body hc =>
      obtain rfl := hS.closure hc
      exact ih.entered_root

end Stock

end TypedImp
