import TypedImp.Proofs.Scope.Chain

/-!
# Overloads

A name may be bound with several arities along a chain. The arities that are reported where none of
them fits are those that would have fitted (`mem_arities`), in increasing order
(`pairwise_arities`), and if there is no arity at all, the name is unknown
(`Path.lookupFunction_eq_error`).
-/

namespace TypedImp

/-! ## Increasing lists -/

theorem mem_insertOnce {m n : Nat} {ms : List Nat} :
    m ∈ increasing.insertOnce n ms ↔ m = n ∨ m ∈ ms := by
  fun_induction increasing.insertOnce n ms with
  | case1 => rw [List.mem_singleton, or_iff_left List.not_mem_nil]
  | case2 => rw [List.mem_cons]
  | case3 k ks => rw [List.mem_cons, ← or_assoc, or_self]
  | case4 k ks _ _ ih => rw [List.mem_cons, ih, List.mem_cons, or_left_comm]

theorem pairwise_insertOnce {n : Nat} {ms : List Nat} (h : ms.Pairwise (· < ·)) :
    (increasing.insertOnce n ms).Pairwise (· < ·) := by
  fun_induction increasing.insertOnce n ms with
  | case1 => exact List.pairwise_singleton ..
  | case2 k ks hlt =>
    refine List.pairwise_cons.2 ⟨fun m hm => ?_, h⟩
    rcases List.mem_cons.1 hm with rfl | hm
    · exact hlt
    · exact Nat.lt_trans hlt ((List.pairwise_cons.1 h).1 m hm)
  | case3 => exact h
  | case4 k ks hlt hne ih =>
    obtain ⟨hhead, htail⟩ := List.pairwise_cons.1 h
    refine List.pairwise_cons.2 ⟨fun m hm => ?_, ih htail⟩
    rcases mem_insertOnce.1 hm with rfl | hm
    · omega
    · exact hhead m hm

theorem mem_increasing {m : Nat} {ns : List Nat} : m ∈ increasing ns ↔ m ∈ ns := by
  induction ns with
  | nil => rfl
  | cons n ns ih =>
    change m ∈ increasing.insertOnce n (increasing ns) ↔ m ∈ n :: ns
    rw [mem_insertOnce, ih, List.mem_cons]

theorem pairwise_increasing (ns : List Nat) : (increasing ns).Pairwise (· < ·) := by
  induction ns with
  | nil => exact .nil
  | cons n ns ih => exact pairwise_insertOnce ih

theorem Table.mem_keys {κ α : Type} [DecidableEq κ] {t : Table κ α} {k : κ} :
    k ∈ t.keys ↔ ∃ v, t.get? k = some v := by
  induction t with
  | nil => exact ⟨(nomatch ·), fun ⟨_, h⟩ => nomatch h⟩
  | cons p t ih =>
    rw [keys, List.map_cons, List.mem_cons, get?_cons]
    split_ifs with h
    · exact iff_of_true (.inl h) ⟨_, rfl⟩
    · rw [or_iff_right h]
      exact ih

variable {V F : Type}

theorem Scope.mem_arities {scope : Scope V F} {name : String} {n : Nat} :
    n ∈ scope.arities name ↔ ∃ f, scope.funs.get? (name, n) = some f := by
  rw [← Table.mem_keys, arities, List.mem_map]
  constructor
  · rintro ⟨⟨name', n'⟩, hmem, rfl⟩
    obtain ⟨hmem, hname⟩ := List.mem_filter.1 hmem
    rwa [← of_decide_eq_true hname]
  · intro hmem
    exact ⟨_, List.mem_filter.2 ⟨hmem, decide_eq_true rfl⟩, rfl⟩

namespace Arena

variable {a : Arena V F} {s : ScopeId} {name : String} {n : Nat}

/-- The arities of a name are those that a function of the name is found with. -/
theorem mem_arities : n ∈ a.arities s name ↔ ∃ f, a.findFunction? s name n = some f := by
  rw [arities, mem_increasing, List.mem_flatMap, ← Option.isSome_iff_exists, findFunction?,
    List.findSome?_isSome_iff]
  simp only [Scope.mem_arities, Option.isSome_iff_exists]

theorem pairwise_arities (a : Arena V F) (s : ScopeId) (name : String) :
    (a.arities s name).Pairwise (· < ·) :=
  pairwise_increasing _

/-- On a path, a lookup fails if the name is not bound with this arity: the name is unknown, or
the arities that it is bound with are reported. -/
theorem Path.lookupFunction_eq_error {l : List (ScopeId × Scope V F)} (h : a.Path s l) {e : Error} :
    a.lookupFunction s name n = .error e ↔ n ∉ a.arities s name ∧
      (a.arities s name = [] ∧ e = .unknownFunction name n ∨
        a.arities s name ≠ [] ∧ e = .arityMismatch name (a.arities s name) n) := by
  rw [mem_arities, lookupFunction]
  cases hfind : a.findFunction? s name n with
  | some f => exact ⟨(nomatch ·), fun ⟨hn, _⟩ => absurd ⟨f, rfl⟩ hn⟩
  | none =>
    rw [and_iff_right (by simp), h.chain]
    cases a.arities s name with
    | nil => simp [notFound, eq_comm]
    | cons m ms => simp [notFound, eq_comm]

end Arena

end TypedImp
