import Lisp.Proofs.Dict
import Lisp.Proofs.Machine.Waiting

/-! An alias form handles its pairs in turn. One that fails leaves behind what it has done by then:
all that the form of the pairs before the faulty one would have done, and nothing else. -/

set_option autoImplicit false

namespace Lisp

/-! ## Pairs in turn -/

/-- The operands of an alias form, for pairs of a name and the name that it is to stand for. -/
def pairForms (pairs : List (String × String)) : List Value :=
  pairs.flatMap fun pair => [.symbol pair.1, .symbol pair.2]

theorem length_pairForms (pairs : List (String × String)) :
    (pairForms pairs).length = pairs.length * 2 := by
  rw [pairForms, List.length_flatMap]
  simp

namespace Store

/-- A frame takes up pairs in turn: each name is bound to the value that the other one has by then,
and recorded. A pair whose other name has no value is passed over. -/
inductive Aliased (f : FrameId) : Store → List (String × String) → Store → Prop where
  | nil {s : Store} : Aliased f s [] s
  | bound {s t : Store} {synonym meaning : String} {rest : List (String × String)} {value : Value}
      (found : s.lookup? f meaning = some value)
      (others : Aliased f ((s.define f synonym value).addAlias f synonym meaning) rest t) :
      Aliased f s ((synonym, meaning) :: rest) t
  | unbound {s t : Store} {synonym meaning : String} {rest : List (String × String)}
      (missing : s.lookup? f meaning = none) (others : Aliased f s rest t) :
      Aliased f s ((synonym, meaning) :: rest) t

/-- A pair that has been taken up, with the value that was bound. -/
structure Synonym where
  name : String
  meaning : String
  value : Value

/-- New names in a frame, all else as it was. -/
def addSynonyms (s : Store) (f : FrameId) (taken : List Synonym) : Store :=
  { s with frames := s.frames.modify f fun frame =>
      { frame with
        bindings := frame.bindings.insertAll (taken.map fun pair => (pair.name, pair.value))
        aliases := frame.aliases.insertAll (taken.map fun pair => (pair.name, pair.meaning)) } }

variable {s t : Store} {f : FrameId} {pairs : List (String × String)}

theorem addSynonyms_nil (s : Store) (f : FrameId) : s.addSynonyms f [] = s := by
  have frames : s.frames.modify f (fun frame => frame) = s.frames := by
    apply Array.ext_getElem?
    intro g
    rw [Array.getElem?_modify]
    split
    · exact Option.map_id'
    · rfl
  exact congrArg (fun frames => { s with frames }) frames

theorem addSynonyms_cons (s : Store) (f : FrameId) (first : Synonym) (taken : List Synonym) :
    s.addSynonyms f (first :: taken) =
      ((s.define f first.name first.value).addAlias f first.name first.meaning).addSynonyms f
        taken := by
  refine congrArg (fun frames => { s with frames }) ?_
  apply Array.ext_getElem?
  intro g
  simp only [define, addAlias, Array.getElem?_modify]
  split
  · simp only [Option.map_map]
    rfl
  · rfl

/-- Some of the pairs are taken up, and nothing else happens. -/
theorem Aliased.exists_taken (aliased : s.Aliased f pairs t) :
    ∃ taken : List Synonym,
      (taken.map fun pair => (pair.name, pair.meaning)).Sublist pairs ∧
        t = s.addSynonyms f taken := by
  induction aliased with
  | nil => exact ⟨[], List.Sublist.slnil, (addSynonyms_nil _ f).symm⟩
  | @bound s t synonym meaning rest value found others ih =>
      obtain ⟨taken, among, rfl⟩ := ih
      exact ⟨⟨synonym, meaning, value⟩ :: taken, among.cons_cons _,
        (addSynonyms_cons s f ⟨synonym, meaning, value⟩ taken).symm⟩
  | unbound missing others ih =>
      obtain ⟨taken, among, same⟩ := ih
      exact ⟨taken, among.cons _, same⟩

theorem Aliased.eq_of_unbound (aliased : s.Aliased f pairs t)
    (unbound : ∀ pair ∈ pairs, s.lookup? f pair.2 = none) : t = s := by
  induction aliased with
  | nil => rfl
  | bound found others ih => simp [found] at unbound
  | unbound missing others ih =>
      exact ih fun pair mem => unbound pair (List.mem_cons_of_mem _ mem)

theorem exists_aliased (s : Store) (f : FrameId) (pairs : List (String × String)) :
    ∃ t, s.Aliased f pairs t := by
  induction pairs generalizing s with
  | nil => exact ⟨s, .nil⟩
  | cons pair rest ih =>
      cases value : s.lookup? f pair.2 with
      | none =>
          obtain ⟨t, others⟩ := ih s
          exact ⟨t, .unbound value others⟩
      | some v =>
          obtain ⟨t, others⟩ := ih ((s.define f pair.1 v).addAlias f pair.1 pair.2)
          exact ⟨t, .bound value others⟩

end Store

/-! ## The form -/

namespace Context

open Store

/-- One of two operands, `fault`, is the first of them that is no symbol. -/
inductive Faulty : (first second fault : Value) → Prop where
  | first {fault second : Value} (noSymbol : fault.symbol? = none) : Faulty fault second fault
  | second {name : String} {fault : Value} (noSymbol : fault.symbol? = none) :
      Faulty (.symbol name) fault fault

variable {s t : Store} {f : FrameId} {pairs : List (String × String)}

theorem bindAliases_pairs (aliased : s.Aliased f pairs t) (rest : List Value) :
    bindAliases s f (pairForms pairs ++ rest) = bindAliases t f rest := by
  induction aliased with
  | nil => rfl
  | bound found _ ih =>
      rw [← ih]
      simp only [pairForms, List.flatMap_cons, List.cons_append, List.nil_append, bindAliases,
        symbolName, Value.symbol?, found]
  | unbound missing _ ih =>
      rw [← ih]
      simp only [pairForms, List.flatMap_cons, List.cons_append, List.nil_append, bindAliases,
        symbolName, Value.symbol?, missing]

theorem bindAliases_all (aliased : s.Aliased f pairs t) :
    bindAliases s f (pairForms pairs) = (none, t) := by
  have taken := bindAliases_pairs aliased []
  rw [List.append_nil] at taken
  exact taken

theorem bindAliases_faulty {first second fault : Value} (aliased : s.Aliased f pairs t)
    (faulty : Faulty first second fault) (rest : List Value) :
    bindAliases s f (pairForms pairs ++ first :: second :: rest) =
      (some (.notASymbol Keyword.synonym.name fault.typeName), t) := by
  have refused {v : Value} (noSymbol : v.symbol? = none) : symbolName Keyword.synonym.name v =
      .error (.notASymbol Keyword.synonym.name v.typeName) := by
    rw [symbolName, noSymbol]
  rw [bindAliases_pairs aliased, bindAliases]
  cases faulty with
  | first noSymbol => rw [refused noSymbol]
  | second noSymbol =>
      rw [refused noSymbol]
      rfl

theorem pairs_or_faulty (args : List Value) (even : args.length % 2 = 0) :
    (∃ pairs, args = pairForms pairs) ∨
      ∃ pairs first second rest fault,
        args = pairForms pairs ++ first :: second :: rest ∧ Faulty first second fault := by
  have symbol (v : Value) : (∃ name, v = .symbol name) ∨ v.symbol? = none := by
    cases v with
    | symbol name => exact .inl ⟨name, rfl⟩
    | _ => exact .inr rfl
  -- The induction takes two operands at a time, as the form does.
  induction args using List.twoStepInduction with
  | nil => exact .inl ⟨[], rfl⟩
  | singleton v => cases even
  | cons_cons first second args ih _ =>
      rcases symbol first with ⟨synonym, rfl⟩ | noSymbol
      · rcases symbol second with ⟨meaning, rfl⟩ | noSymbol
        · have even' : args.length % 2 = 0 := (Nat.add_mod_right _ 2).symm.trans even
          obtain ⟨pairs, rfl⟩ | ⟨pairs, first, second, rest, fault, rfl, faulty⟩ := ih even'
          · exact .inl ⟨(synonym, meaning) :: pairs, rfl⟩
          · exact .inr ⟨(synonym, meaning) :: pairs, first, second, rest, fault, rfl, faulty⟩
        · exact .inr ⟨[], _, second, args, second, rfl, .second noSymbol⟩
      · exact .inr ⟨[], first, second, args, first, rfl, .first noSymbol⟩

end Context

section Form

variable {room : Nat} {args : List Value} {frame : FrameId} {before after : Store}

theorem evaluates_alias_odd (odd : args.length = 0 ∨ args.length % 2 = 1) {value : Value} :
    Evaluates (room + 1) (Keyword.synonym.form args) frame before value after ↔
      value = .error (.arity Keyword.synonym.name .evenFromTwo args.length) ∧ after = before := by
  have refused : (args.length = 0 || args.length % 2 = 1) = true := by simpa using odd
  rw [evaluates_form_iff, Context.special, if_pos refused, Context.wrongCount, Context.fail,
    State.halts_finish, Prod.mk.injEq, eq_comm, @eq_comm _ before]

theorem evaluates_alias_even (nonempty : args.length ≠ 0) (even : args.length % 2 = 0)
    {failure : Option EvalError} {left : Store}
    (bound : Context.bindAliases before frame args = (failure, left)) {value : Value} :
    Evaluates (room + 1) (Keyword.synonym.form args) frame before value after ↔
      value = failure.elim .nil .error ∧ after = left := by
  have accepted : ¬ (args.length = 0 || args.length % 2 = 1) = true := by simp [nonempty, even]
  rw [evaluates_form_iff, Context.special, if_neg accepted]
  cases failure <;>
    simp only [bound, State.halts_finish, Prod.mk.injEq, Option.elim, eq_comm]

theorem evaluates_alias_pairs {pairs : List (String × String)} (nonempty : pairs ≠ [])
    (aliased : before.Aliased frame pairs after) :
    Evaluates (room + 1) (Keyword.synonym.form (pairForms pairs)) frame before .nil after := by
  have length := length_pairForms pairs
  have filled := List.length_pos_iff.mpr nonempty
  exact (evaluates_alias_even (by omega) (by omega) (Context.bindAliases_all aliased)).mpr ⟨rfl, rfl⟩

end Form

/-- How an alias form fails, and what it leaves behind. -/
inductive AliasFailure (budget : Nat) (frame : FrameId) (before : Store) (args : List Value) :
    EvalError → Store → Prop where
  | refused (exhausted : budget = 0) : AliasFailure budget frame before args .depthExceeded before
  | count (granted : budget ≠ 0) (odd : args.length = 0 ∨ args.length % 2 = 1) :
      AliasFailure budget frame before args
        (.arity Keyword.synonym.name .evenFromTwo args.length) before
  | faulty {after : Store} {pairs : List (String × String)} {first second fault : Value}
      {rest : List Value} (granted : budget ≠ 0) (even : args.length % 2 = 0)
      (shape : args = pairForms pairs ++ first :: second :: rest)
      (faulty : Context.Faulty first second fault) (aliased : before.Aliased frame pairs after) :
      AliasFailure budget frame before args
        (.notASymbol Keyword.synonym.name fault.typeName) after

theorem alias_fails_iff {budget : Nat} {args : List Value} {frame : FrameId} {before after : Store}
    {cause : EvalError} :
    Evaluates budget (Keyword.synonym.form args) frame before (.error cause) after ↔
      AliasFailure budget frame before args cause after := by
  cases budget with
  | zero =>
      constructor
      · rintro ⟨fuel, ended⟩
        cases ended
        exact .refused rfl
      · intro failure
        cases failure with
        | refused _ => exact ⟨0, rfl⟩
        | count granted _ => exact absurd rfl granted
        | faulty granted _ _ _ _ => exact absurd rfl granted
  | succ room =>
      have granted : room + 1 ≠ 0 := Nat.succ_ne_zero room
      constructor
      · intro evaluates
        by_cases odd : args.length = 0 ∨ args.length % 2 = 1
        · obtain ⟨same, rfl⟩ := (evaluates_alias_odd odd).mp evaluates
          cases same
          exact .count granted odd
        · obtain ⟨nonempty, notOdd⟩ := not_or.mp odd
          have even : args.length % 2 = 0 := Nat.mod_two_ne_one.mp notOdd
          obtain ⟨pairs, rfl⟩ | ⟨pairs, first, second, rest, fault, rfl, faulty⟩ :=
            Context.pairs_or_faulty args even
          · obtain ⟨t, aliased⟩ := before.exists_aliased frame pairs
            have bound := Context.bindAliases_all aliased
            cases ((evaluates_alias_even nonempty even bound).mp evaluates).1
          · obtain ⟨t, aliased⟩ := before.exists_aliased frame pairs
            have bound := Context.bindAliases_faulty aliased faulty rest
            obtain ⟨same, rfl⟩ := (evaluates_alias_even nonempty even bound).mp evaluates
            cases same
            exact .faulty granted even rfl faulty aliased
      · intro failure
        cases failure with
        | refused exhausted => cases exhausted
        | count _ odd => exact (evaluates_alias_odd odd).mpr ⟨rfl, rfl⟩
        | @faulty _ pairs first second fault rest _ even shape faulty aliased =>
            have bound := Context.bindAliases_faulty aliased faulty rest
            rw [← shape] at bound
            exact (evaluates_alias_even (by simp [shape]) even bound).mpr ⟨rfl, rfl⟩

/-- An alias form fails when there is no room for it, for its number of operands, and at the first
operand that is no symbol. In the last case the pairs before that operand's have been taken up just
as by a form of these pairs alone, which changes nothing if none of the names that they refer to has
a value; otherwise nothing has changed. Whatever pairs are taken up, no more changes than the names
and the aliases of the frame in which they are. -/
theorem alias_failure (args : List Value) (frame : FrameId) (before : Store) :
    (∀ budget cause after,
      Evaluates budget (Keyword.synonym.form args) frame before (.error cause) after ↔
        AliasFailure budget frame before args cause after) ∧
    ∀ pairs after, before.Aliased frame pairs after →
      (pairs ≠ [] → ∀ room,
        Evaluates (room + 1) (Keyword.synonym.form (pairForms pairs)) frame before .nil after) ∧
      ((∀ pair ∈ pairs, before.lookup? frame pair.2 = none) → after = before) ∧
      ∃ taken : List Store.Synonym,
        (taken.map fun pair => (pair.name, pair.meaning)).Sublist pairs ∧
          after = before.addSynonyms frame taken :=
  ⟨fun _ _ _ => alias_fails_iff, fun _ _ aliased =>
    ⟨fun nonempty _ => evaluates_alias_pairs nonempty aliased, aliased.eq_of_unbound,
      aliased.exists_taken⟩⟩

private def aliasStore : Store :=
  ⟨#[⟨none, [("x", .bool true)], [], 0⟩], #[], #[]⟩

/-- The second pair refers to a name from the first, and the third to one that has no value. -/
private def takenPairs : List (String × String) :=
  [("p", "x"), ("q", "p"), ("r", "y")]

private def takenStore : Store :=
  ⟨#[⟨none, [("p", .bool true), ("q", .bool true), ("x", .bool true)], [("p", "x"), ("q", "p")],
    0⟩], #[], #[]⟩

private def faultyOperands : List Value :=
  [.symbol "s", .bool false, .symbol "t", .symbol "x"]

private theorem aliased_takenPairs : aliasStore.Aliased 0 takenPairs takenStore :=
  .bound rfl (.bound rfl (.unbound rfl .nil))

theorem alias_failure_halfway :
    aliasStore.Aliased 0 takenPairs takenStore ∧ takenPairs ≠ [] ∧
      Evaluates 1 (Keyword.synonym.form (pairForms takenPairs)) 0 aliasStore .nil takenStore ∧
      Evaluates 1 (Keyword.synonym.form (pairForms takenPairs ++ faultyOperands)) 0 aliasStore
        (.error (.notASymbol "alias" "bool")) takenStore := by
  have nonempty : takenPairs ≠ [] := nofun
  have fails := (alias_failure (pairForms takenPairs ++ faultyOperands) 0 aliasStore).1
  have taken := ((alias_failure [] 0 aliasStore).2 _ _ aliased_takenPairs).1 nonempty 0
  exact ⟨aliased_takenPairs, nonempty, taken, (fails 1 _ _).mpr
    (.faulty (by decide) rfl rfl (.second rfl) aliased_takenPairs)⟩

/-- A failing form can leave a name and an alias behind. -/
theorem alias_not_atomic :
    ¬ ∀ budget args frame before cause after,
      Evaluates budget (Keyword.synonym.form args) frame before (.error cause) after →
        after.bindingsOf frame = before.bindingsOf frame ∧
          after.aliasesOf frame = before.aliasesOf frame := by
  intro atomic
  have failed : Evaluates 1 (Keyword.synonym.form (pairForms takenPairs ++ faultyOperands)) 0
      aliasStore (.error (.notASymbol "alias" "bool")) takenStore := ⟨4, rfl⟩
  cases (atomic _ _ _ _ _ _ failed).2

end Lisp
