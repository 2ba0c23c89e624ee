import TypedImp.Proofs.Scope.Overloads
import TypedImp.Proofs.Types.Issued

/-!
# Methods that do not fit

Where a type has methods of a name but none for some number of arguments, the numbers that would
fit are reported. They are the arities of the methods that the type has or inherits
(`Reachable.method_eq_error`), less one for the receiver, and the report is true as long as each of
these methods has a receiver (`Registry.misfits_reported`). A method without one cannot be called
and yet is reported (`Registry.reports_uncallable`).
-/

namespace TypedImp

namespace Registry

variable {r : Registry} {type : TypeId} {name : String} {n k : Nat}

/-- The type has or inherits the method, even if one of the same name and arity hides it. -/
def Offers (r : Registry) (type : TypeId) (method : MethodMember) : Prop :=
  ∃ info, r.info type = .ok info ∧ ∃ q ∈ (r.members.chain info.members).scopes,
    q.2.funs.get? (method.name, method.arity) = some method

/-- There is a method for this number of explicit arguments. Such numbers have 64 bits. -/
def Answers (r : Registry) (type : TypeId) (name : String) (arguments : Nat) : Prop :=
  arguments < 18446744073709551616 ∧ ∃ method, r.method type name arguments = .ok method

/-- A lookup of a method tells the truth if it fails. -/
structure Truthful (r : Registry) (type : TypeId) (name : String) (k : Nat) : Prop where
  error : ∀ e, r.method type name k = .error e →
    e = .unknownFunction name k ∨ ∃ expected, e = .arityMismatch name expected k
  mismatch : ∀ expected, r.method type name k = .error (.arityMismatch name expected k) →
    expected.Pairwise (· < ·) ∧ k ∉ expected ∧ ∀ a, a ∈ expected ↔ r.Answers type name a
  unknown : r.method type name k = .error (.unknownFunction name k) ↔ ∀ a, ¬ r.Answers type name a

/-! ## What is reported -/

theorem Reachable.mem_arities (hr : r.Reachable) {info : TypeInfo} (hi : r.info type = .ok info) :
    n ∈ r.members.arities info.members name ↔
      ∃ method, r.Offers type method ∧ method.name = name ∧ method.arity = n := by
  rw [Arena.mem_arities]
  constructor
  · rintro ⟨method, hm⟩
    obtain ⟨q, hq, hget⟩ := List.exists_of_findSome?_eq_some hm
    have hkey := (hr.keyed _ _ (Arena.get?_of_mem_climb hq)).2 _ _ hget
    cases hkey
    exact ⟨method, ⟨info, hi, q, hq, hget⟩, rfl, rfl⟩
  · rintro ⟨method, ⟨info', hi', q, hq, hget⟩, rfl, rfl⟩
    cases hi.symm.trans hi'
    rw [← Option.isSome_iff_exists, Arena.findFunction?, List.findSome?_isSome_iff]
    exact ⟨q, hq, Option.isSome_of_eq_some hget⟩

theorem exists_method_iff {info : TypeInfo} (hi : r.info type = .ok info) :
    (∃ method, r.method type name k = .ok method) ↔
      Function.withReceiver k ∈ r.members.arities info.members name := by
  simp only [method_eq_ok, hi, Except.ok.injEq, exists_eq_left', Arena.mem_arities,
    Arena.lookupFunction_eq_ok]

/-- A lookup of a method fails if none has this arity, and reports all arities less one. -/
theorem Reachable.method_eq_error (hr : r.Reachable) {info : TypeInfo}
    (hi : r.info type = .ok info) {e : Error} : r.method type name k = .error e ↔
      Function.withReceiver k ∉ r.members.arities info.members name ∧
        (r.members.arities info.members name = [] ∧ e = .unknownFunction name k ∨
          r.members.arities info.members name ≠ [] ∧
            e = .arityMismatch name ((r.members.arities info.members name).map (· - 1)) k) := by
  obtain ⟨l, hpath⟩ := hr.rooted type info hi
  have hmethod : r.method type name k = .error e ↔
      ∃ e', r.members.lookupFunction info.members name (Function.withReceiver k) = .error e' ∧
        withoutReceiver k e' = e := by
    simp only [method, hi]
    change Except.mapError _ _ = _ ↔ _
    cases r.members.lookupFunction info.members name (Function.withReceiver k) with
    | error e' => simp [Except.mapError]
    | ok _ => simp [Except.mapError]
  rw [hmethod]
  simp only [hpath.lookupFunction_eq_error]
  constructor
  · rintro ⟨_, ⟨hn, ⟨hnil, rfl⟩ | ⟨hne, rfl⟩⟩, rfl⟩
    · exact ⟨hn, .inl ⟨hnil, rfl⟩⟩
    · exact ⟨hn, .inr ⟨hne, rfl⟩⟩
  · rintro ⟨hn, ⟨hnil, rfl⟩ | ⟨hne, rfl⟩⟩
    · exact ⟨_, ⟨hn, .inl ⟨hnil, rfl⟩⟩, rfl⟩
    · exact ⟨_, ⟨hn, .inr ⟨hne, rfl⟩⟩, rfl⟩

theorem withReceiver_eq (hk : k < 18446744073709551616) (hpos : 0 < n)
    (hn : n < 18446744073709551616) :
    Function.withReceiver k = n ↔ k = n - 1 := by
  rw [Function.withReceiver]
  omega

/-- A method answers the arguments that are left when the receiver is taken off. -/
theorem answers_iff {info : TypeInfo} (hi : r.info type = .ok info)
    (hreceiver : ∀ n ∈ r.members.arities info.members name, 0 < n ∧ n < 18446744073709551616) :
    r.Answers type name k ↔ k ∈ (r.members.arities info.members name).map (· - 1) := by
  rw [Answers, exists_method_iff hi, List.mem_map]
  constructor
  · rintro ⟨hk, hmem⟩
    obtain ⟨hpos, hn⟩ := hreceiver _ hmem
    exact ⟨_, hmem, ((withReceiver_eq hk hpos hn).1 rfl).symm⟩
  · rintro ⟨n, hmem, rfl⟩
    obtain ⟨hpos, hn⟩ := hreceiver n hmem
    have hk : n - 1 < 18446744073709551616 := by omega
    rw [(withReceiver_eq hk hpos hn).2 rfl]
    exact ⟨hk, hmem⟩

/-- Taking off the receivers keeps an increasing list of arities increasing. -/
theorem pairwise_withoutReceiver {ns : List Nat} (h : ns.Pairwise (· < ·))
    (hpos : ∀ n ∈ ns, 0 < n) : (ns.map (· - 1)).Pairwise (· < ·) := by
  refine List.pairwise_map.2 (h.imp_of_mem fun {m n} hm hn hlt => ?_)
  have := hpos m hm
  omega

/-! ## Methods with receivers -/

/-- What the lookup of a method reports is true if all methods of the name that the type has or
inherits have a receiver. Their number of parameters has 64 bits, as the number of arguments has. -/
theorem misfits_reported (hr : r.Reachable) (issued : r.Issued type)
    (receiver : ∀ method, r.Offers type method → method.name = name →
      method.parameters ≠ [] ∧ method.parameters.length < 18446744073709551616) :
    r.Truthful type name k := by
  obtain ⟨info, hi⟩ := issued_iff.1 issued
  have hreceiver : ∀ n ∈ r.members.arities info.members name, 0 < n ∧ n < 18446744073709551616 := by
    intro n hn
    obtain ⟨method, hm, hname, rfl⟩ := (hr.mem_arities hi).1 hn
    obtain ⟨hne, hlt⟩ := receiver method hm hname
    exact ⟨List.length_pos_iff.2 hne, hlt⟩
  have hanswers {a : Nat} := answers_iff (k := a) hi hreceiver
  constructor
  case error =>
    intro e he
    obtain ⟨-, ⟨-, rfl⟩ | ⟨-, rfl⟩⟩ := (hr.method_eq_error hi).1 he
    · exact .inl rfl
    · exact .inr ⟨_, rfl⟩
  case mismatch =>
    intro expected he
    obtain ⟨hn, ⟨-, heq⟩ | ⟨-, heq⟩⟩ := (hr.method_eq_error hi).1 he
    · cases heq
    · cases heq
      refine ⟨pairwise_withoutReceiver (Arena.pairwise_arities ..) fun n hn => (hreceiver n hn).1,
        fun hmem => ?_, fun a => hanswers.symm⟩
      exact hn ((exists_method_iff hi).1 (hanswers.2 hmem).2)
  case unknown =>
    simp only [hr.method_eq_error hi, hanswers, ← List.eq_nil_iff_forall_not_mem,
      List.map_eq_nil_iff, reduceCtorEq, and_false, or_false, and_true]
    exact and_iff_right_of_imp fun hnil => hnil ▸ List.not_mem_nil

/-- A method that writes a string at some width, next to the inherited one without a width. -/
def padded : MethodMember :=
  ⟨⟨"stringify", "pad", [.any, .integer], .string⟩, none⟩

def paddedStrings : Registry :=
  { builtin with members := builtin.members.bindFunction ⟨8⟩ "stringify" 2 padded }

theorem defineMethod_paddedStrings : builtin.defineMethod .string padded = .ok paddedStrings :=
  rfl

/-- Strings have a method `stringify` of their own and inherit another one. -/
theorem misfits_reported_stringify :
    paddedStrings.Reachable ∧ paddedStrings.Issued .string ∧
      (∀ method, paddedStrings.Offers .string method → method.name = "stringify" →
        method.parameters ≠ [] ∧ method.parameters.length < 18446744073709551616) ∧
      paddedStrings.method .string "stringify" 2 =
        .error (.arityMismatch "stringify" [0, 1] 2) ∧
      paddedStrings.Truthful .string "stringify" 2 := by
  have hr : paddedStrings.Reachable := .defineMethod .builtin defineMethod_paddedStrings
  have issued : paddedStrings.Issued .string := by decide +kernel
  have receiver : ∀ method, paddedStrings.Offers .string method → method.name = "stringify" →
      method.parameters ≠ [] ∧ method.parameters.length < 18446744073709551616 := by
    intro method hm hname
    have hi : paddedStrings.info .string = .ok ⟨"String", "String", ⟨8⟩⟩ := rfl
    have harity : method.arity ∈ [1, 2] := (hr.mem_arities hi).2 ⟨method, hm, hname, rfl⟩
    rw [← List.length_pos_iff]
    change 0 < method.arity ∧ method.arity < 18446744073709551616
    simp only [List.mem_cons, List.not_mem_nil, or_false] at harity
    omega
  exact ⟨hr, issued, receiver, rfl, misfits_reported hr issued receiver⟩

/-- A method that does not take its receiver. -/
def receiverless : MethodMember :=
  ⟨⟨"now", "now", [], .integer⟩, none⟩

def clocks : Registry :=
  { builtin with members := builtin.members.bindFunction ⟨0⟩ "now" 0 receiverless }

theorem defineMethod_clocks : builtin.defineMethod .any receiverless = .ok clocks :=
  rfl

/-- A method without a receiver is reported as one that takes no arguments, to a caller who gives it
none. -/
theorem reports_uncallable :
    ¬ ∀ (r : Registry) (type : TypeId) (name : String) (k : Nat), r.Reachable → r.Issued type →
      k < 18446744073709551616 → r.Truthful type name k := by
  intro h
  have hr : clocks.Reachable := .defineMethod .builtin defineMethod_clocks
  have truthful := h clocks .any "now" 0 hr (by decide +kernel) (by decide)
  obtain ⟨-, habsent, -⟩ := truthful.mismatch [0] rfl
  exact habsent (List.mem_singleton.2 rfl)

end Registry

end TypedImp
