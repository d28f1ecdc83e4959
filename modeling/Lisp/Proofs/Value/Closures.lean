import Lisp.Eval.Parameters
import Lisp.Native.Reply
import Lisp.Proofs.Dict
import Lisp.Proofs.Direct.Template
import Lisp.Proofs.Value.Rereading

/-! Closures come from nowhere but the evaluation of a `lambda`: what the reader gives contains none,
and those in what a native operation gives were in its arguments. -/

set_option autoImplicit false

namespace Lisp

variable {p : Closure Value → Prop}

/-- A closure is a value or occurs in it, at any depth. The bodies of closures count too, since a
body is a value that evaluation takes apart. -/
inductive Closure.OccursIn (c : Closure Value) : Value → Prop where
  | self (isMacro : Bool) : OccursIn c (.procedure ⟨.closure c, isMacro⟩)
  | body {around : Closure Value} {isMacro : Bool} (within : OccursIn c around.body) :
      OccursIn c (.procedure ⟨.closure around, isMacro⟩)
  | item {items : List Value} {item : Value} (mem : item ∈ items) (within : OccursIn c item) :
      OccursIn c (.list items)
  | entry {name : Option String} {entries : List (String × Value)} {entry : String × Value}
      (mem : entry ∈ entries) (within : OccursIn c entry.2) : OccursIn c (.hash name entries)

namespace Value

def AllClosures (p : Closure Value → Prop) (v : Value) : Prop :=
  ∀ c : Closure Value, c.OccursIn v → p c

theorem AllClosures.mono {q : Closure Value → Prop} {v : Value} (all : v.AllClosures p)
    (weaker : ∀ c, p c → q c) : v.AllClosures q :=
  fun c occurs => weaker c (all c occurs)

@[simp]
theorem allClosures_nil : nil.AllClosures p := nofun

@[simp]
theorem allClosures_bool (b : Bool) : (bool b).AllClosures p := nofun

@[simp]
theorem allClosures_number (x : Float) : (number x).AllClosures p := nofun

@[simp]
theorem allClosures_string (s : String) : (string s).AllClosures p := nofun

@[simp]
theorem allClosures_symbol (name : String) : (symbol name).AllClosures p := nofun

@[simp]
theorem allClosures_error (cause : EvalError) : (error cause).AllClosures p := nofun

@[simp]
theorem allClosures_list {items : List Value} :
    (list items).AllClosures p ↔ ∀ item ∈ items, item.AllClosures p := by
  constructor
  · exact fun all item mem c within => all c (.item mem within)
  · rintro all c (_ | _ | ⟨mem, within⟩)
    exact all _ mem c within

@[simp]
theorem allClosures_hash {name : Option String} {entries : List (String × Value)} :
    (hash name entries).AllClosures p ↔ ∀ entry ∈ entries, entry.2.AllClosures p := by
  constructor
  · exact fun all entry mem c within => all c (.entry mem within)
  · rintro all c (_ | _ | _ | ⟨mem, within⟩)
    exact all _ mem c within

@[simp]
theorem allClosures_native (operation : Native) (isMacro : Bool) :
    (procedure ⟨.native operation, isMacro⟩).AllClosures p := nofun

@[simp]
theorem allClosures_closure {closure : Closure Value} {isMacro : Bool} :
    (procedure ⟨.closure closure, isMacro⟩).AllClosures p ↔
      p closure ∧ closure.body.AllClosures p := by
  constructor
  · exact fun all => ⟨all _ (.self isMacro), fun c within => all c (.body within)⟩
  · rintro ⟨own, inside⟩ c (_ | within)
    · exact own
    · exact inside c within

end Value

/-! ## Reading -/

theorem allClosures_ofAtom (text : String) : (Value.ofAtom text).AllClosures p := by
  rw [Value.ofAtom]
  split_ifs
  · exact Value.allClosures_bool true
  · exact Value.allClosures_bool false
  · exact Value.allClosures_nil
  · split
    · exact Value.allClosures_number _
    · exact Value.allClosures_symbol text
  · exact Value.allClosures_symbol text

theorem allClosures_lambdaBody {body : List Value} (all : ∀ form ∈ body, form.AllClosures p) :
    ∀ form ∈ lambdaBody body, form.AllClosures p := by
  rcases lambdaBody_cases body with same | grouped
  · rwa [same]
  · rw [grouped]
    simpa using all

theorem allClosures_expandDefinition {items : List Value}
    (all : ∀ item ∈ items, item.AllClosures p) :
    ∀ item ∈ expandDefinition items, item.AllClosures p := by
  by_cases shorthand : IsShorthand items
  · obtain ⟨name, parameters, body, rfl⟩ := shorthand
    obtain ⟨⟨named, names⟩, forms⟩ : (name.AllClosures p ∧
        ∀ parameter ∈ parameters, parameter.AllClosures p) ∧
        ∀ form ∈ body, form.AllClosures p := by simpa using all
    have inside := allClosures_lambdaBody forms
    rw [expandDefinition_shorthand]
    simpa using ⟨named, names, inside⟩
  · rwa [expandDefinition_of_not_shorthand shorthand]

theorem allClosures_encloses {bracket : Bracket} {items : List Value} {v : Value}
    (encloses : Encloses bracket items v) (all : ∀ item ∈ items, item.AllClosures p) :
    v.AllClosures p := by
  cases encloses with
  | round => exact Value.allClosures_list.mpr (allClosures_expandDefinition all)
  | square => exact Value.allClosures_list.mpr all
  | @curly _ pairs entries keyed ascending counted =>
      refine Value.allClosures_hash.mpr fun entry mem => ?_
      obtain ⟨pair, written, same⟩ := mem_of_lastValue?
        ((counted entry.1).symm.trans (ascending.get?_of_mem mem))
      exact same ▸ all pair.2 (keyed.value_mem pair written)

def Phrase.AllClosures (p : Closure Value → Prop) : Phrase → Prop
  | form v => v.AllClosures p
  | forms values => ∀ v ∈ values, v.AllClosures p

theorem Derives.allClosures {phrase : Phrase} {ks : List TokenKind} (derived : Derives phrase ks) :
    phrase.AllClosures p := by
  induction derived with
  | atom text => exact allClosures_ofAtom text
  | string => exact Value.allClosures_string _
  | bracketed _ encloses ih => exact allClosures_encloses encloses ih
  | marked marker _ ih =>
      refine Value.allClosures_list.mpr (List.forall_mem_cons.mpr ⟨?_, ?_⟩)
      · exact Value.allClosures_symbol marker.keyword
      · exact List.forall_mem_singleton.mpr ih
  | nil => nofun
  | cons _ _ first rest => exact List.forall_mem_cons.mpr ⟨first, rest⟩

theorem allClosures_of_readAll {source : String} {forms : List Value}
    (read : readAll source = .ok forms) : ∀ form ∈ forms, form.AllClosures p :=
  (readAll_iff_derives.mp read).allClosures

theorem allClosures_of_readFirst {source : String} {form : Value}
    (read : readFirst source = .ok (some form)) : form.AllClosures p := by
  have outcome : readOne (tokenize source) = (.ok (some form), (readOne (tokenize source)).2) :=
    Prod.ext read rfl
  obtain ⟨front, -, derived⟩ := readOne_iff_derives.mp outcome
  exact derived.allClosures

/-! ## Templates -/

theorem allClosures_wrapped? {keyword : String} {v operand : Value}
    (wrapped : v.wrapped? keyword = some operand) (all : v.AllClosures p) :
    operand.AllClosures p := by
  rw [Value.wrapped?_eq_some.mp wrapped] at all
  exact Value.allClosures_list.mp all _ (List.mem_cons_of_mem _ (List.mem_singleton_self _))

theorem allClosures_spliceItems? {v : Value} (all : v.AllClosures p) :
    ∀ item ∈ v.spliceItems?.getD [], item.AllClosures p := by
  cases v with
  | list items => exact Value.allClosures_list.mp all
  | _ => nofun

namespace Template

mutual

theorem allClosures_holes (template : Value) (all : template.AllClosures p) :
    ∀ hole ∈ holes template, hole.operand.AllClosures p := by
  match template with
  | .nil | .bool _ | .number _ | .string _ | .char _ | .symbol _ | .error _ | .hash _ _
  | .procedure _ => rw [holes_leaf (by simp)]; nofun
  | .list items =>
      cases unquoted : (Value.list items).unquoted? with
      | some operand =>
          rw [holes_unquoted unquoted]
          exact List.forall_mem_singleton.mpr (allClosures_wrapped? unquoted all)
      | none =>
          rw [holes_list unquoted]
          exact allClosures_itemHoles items (Value.allClosures_list.mp all)

theorem allClosures_itemHoles (items : List Value) (all : ∀ item ∈ items, item.AllClosures p) :
    ∀ hole ∈ itemHoles items, hole.operand.AllClosures p := by
  match items with
  | [] => nofun
  | item :: rest =>
      obtain ⟨first, others⟩ := List.forall_mem_cons.mp all
      have later := allClosures_itemHoles rest others
      cases spliced : item.spliced? with
      | some operand =>
          rw [itemHoles_spliced spliced]
          exact List.forall_mem_cons.mpr ⟨allClosures_wrapped? spliced first, later⟩
      | none =>
          rw [itemHoles_plain spliced]
          exact List.forall_mem_append.mpr ⟨allClosures_holes item first, later⟩

end

/-- The closures of a value and of the values left over, as filling gives them. -/
def PartsClosures (p : Closure Value → Prop) (parts : Value × List Value) : Prop :=
  parts.1.AllClosures p ∧ ∀ v ∈ parts.2, v.AllClosures p

theorem partsClosures_next {values : List Value} (all : ∀ v ∈ values, v.AllClosures p) :
    PartsClosures p (next values) := by
  cases values with
  | nil => exact ⟨Value.allClosures_nil, nofun⟩
  | cons v rest => exact List.forall_mem_cons.mp all

mutual

theorem partsClosures_fill (template : Value) (values : List Value) (shape : template.AllClosures p)
    (all : ∀ v ∈ values, v.AllClosures p) : PartsClosures p (fill template values) := by
  match template with
  | .nil | .bool _ | .number _ | .string _ | .char _ | .symbol _ | .error _ | .hash _ _
  | .procedure _ => rw [fill_leaf (by simp)]; exact ⟨shape, all⟩
  | .list items =>
      cases unquoted : (Value.list items).unquoted? with
      | some operand =>
          rw [fill_unquoted unquoted]
          exact partsClosures_next all
      | none =>
          obtain ⟨filled, left⟩ := allClosures_fillItems items values
            (Value.allClosures_list.mp shape) all
          rw [fill_list unquoted]
          exact ⟨Value.allClosures_list.mpr filled, left⟩

theorem allClosures_fillItems (items values : List Value)
    (shape : ∀ item ∈ items, item.AllClosures p) (all : ∀ v ∈ values, v.AllClosures p) :
    (∀ item ∈ (fillItems items values).1, item.AllClosures p) ∧
      ∀ v ∈ (fillItems items values).2, v.AllClosures p := by
  match items with
  | [] => exact ⟨nofun, all⟩
  | item :: rest =>
      obtain ⟨first, others⟩ := List.forall_mem_cons.mp shape
      cases spliced : item.spliced? with
      | some operand =>
          obtain ⟨value, left⟩ := partsClosures_next all
          obtain ⟨filled, final⟩ := allClosures_fillItems rest _ others left
          rw [fillItems_spliced spliced]
          exact ⟨List.forall_mem_append.mpr ⟨allClosures_spliceItems? value, filled⟩, final⟩
      | none =>
          obtain ⟨value, left⟩ := partsClosures_fill item values first all
          obtain ⟨filled, final⟩ := allClosures_fillItems rest _ others left
          rw [fillItems_plain spliced]
          exact ⟨List.forall_mem_cons.mpr ⟨value, filled⟩, final⟩

end

end Template

/-! ## Arguments -/

theorem ascending_parameterBindings (parameters : List String) (args : List Value) :
    (parameterBindings parameters args).Ascending := by
  rw [parameterBindings]
  split
  · exact (Dict.ascending_ofList _).insert _ _
  · exact Dict.ascending_ofList _

theorem allClosures_parameterBindings {parameters : List String} {args : List Value}
    (all : ∀ v ∈ args, v.AllClosures p) :
    ∀ entry ∈ parameterBindings parameters args, entry.2.AllClosures p := by
  have named : ∀ entry ∈ Dict.ofList ((fixedParameters parameters).zip args),
      entry.2.AllClosures p :=
    fun entry mem => all _ (List.of_mem_zip (Dict.mem_of_mem_ofList mem)).2
  rw [parameterBindings]
  split
  · intro entry mem
    rcases Dict.mem_of_mem_insert mem with rfl | fixed
    · exact Value.allClosures_list.mpr fun v rest => all v (List.mem_of_mem_drop rest)
    · exact named entry fixed
  · exact named

theorem bindArguments_ok {q : Procedure Value} {c : Closure Value} {args : List Value}
    {bindings : Dict Value} (bound : bindArguments q c args = .ok bindings) :
    bindings = parameterBindings c.parameters args := by
  rw [bindArguments] at bound
  split at bound
  · exact (Except.ok.inj bound).symm
  · cases bound

/-! ## Native operations -/

namespace Native

def Answer.AllClosures (p : Closure Value → Prop) (answer : Answer) : Prop :=
  ∀ v, answer = .ok v → v.AllClosures p

def Reply.AllClosures (p : Closure Value → Prop) : Reply → Prop
  | value v => v.AllClosures p
  | write _ | readLine => True
  | call callee args => callee.AllClosures p ∧ ∀ v ∈ args, v.AllClosures p
  | each callee items => (Value.procedure callee).AllClosures p ∧ ∀ v ∈ items, v.AllClosures p

theorem Reply.allClosures_ofAnswer {answer : Answer} (all : Answer.AllClosures p answer) :
    (Reply.ofAnswer answer).AllClosures p := by
  cases answer with
  | ok v => exact all v rfl
  | error cause => exact Value.allClosures_error cause

theorem Answer.allClosures_ok {v : Value} (all : v.AllClosures p) :
    Answer.AllClosures p (.ok v) := by
  rintro _ ⟨⟩
  exact all

theorem Answer.allClosures_error (cause : EvalError) : Answer.AllClosures p (.error cause) :=
  nofun

theorem Answer.allClosures_map {α : Type} {e : Except EvalError α} {f : α → Value}
    (all : ∀ x, e = .ok x → (f x).AllClosures p) : Answer.AllClosures p (e.map f) := by
  cases e with
  | ok x => exact allClosures_ok (all x rfl)
  | error cause => exact allClosures_error cause

theorem listArgument_ok {operation : Native} {v : Value} {items : List Value}
    (listed : listArgument operation v = .ok items) (all : v.AllClosures p) :
    ∀ item ∈ items, item.AllClosures p := by
  cases v with
  | list inside =>
      cases listed
      exact Value.allClosures_list.mp all
  | nil =>
      cases listed
      nofun
  | _ => cases listed

theorem hashArgument_ok {operation : Native} {v : Value} {entries : Dict Value}
    (hashed : hashArgument operation v = .ok entries) (all : v.AllClosures p) :
    ∀ entry ∈ entries, entry.2.AllClosures p := by
  cases v with
  | hash name inside =>
      cases hashed
      exact Value.allClosures_hash.mp all
  | _ => cases hashed

theorem joinItems_ok {args joined : List Value} (found : joinItems args = .ok joined)
    (all : ∀ v ∈ args, v.AllClosures p) : ∀ item ∈ joined, item.AllClosures p := by
  induction args generalizing joined with
  | nil =>
      cases found
      nofun
  | cons v rest ih =>
      obtain ⟨first, others⟩ := List.forall_mem_cons.mp all
      rw [joinItems] at found
      cases listed : listArgument concat v with
      | error cause => simp [listed] at found
      | ok items =>
          cases later : joinItems rest with
          | error cause => simp [listed, later, Except.map] at found
          | ok more =>
              obtain rfl : items ++ more = joined := by
                simpa [listed, later, Except.map] using found
              exact List.forall_mem_append.mpr ⟨listArgument_ok listed first, ih later others⟩

theorem entryArguments_ok {args : List Value} {entries : List (String × Value)}
    (found : entryArguments args = .ok entries) (all : ∀ v ∈ args, v.AllClosures p) :
    ∀ entry ∈ entries, entry.2.AllClosures p := by
  induction args using entryArguments.induct generalizing entries with
  | case1 k v rest cause keyed => simp [entryArguments, keyed] at found
  | case2 k v rest key keyed ih =>
      obtain ⟨-, value, others⟩ : k.AllClosures p ∧ v.AllClosures p ∧
          ∀ other ∈ rest, other.AllClosures p := by simpa using all
      cases later : entryArguments rest with
      | error cause => simp [entryArguments, keyed, later, Except.map] at found
      | ok more =>
          obtain rfl : (key, v) :: more = entries := by
            simpa [entryArguments, keyed, later, Except.map] using found
          exact List.forall_mem_cons.mpr ⟨value, ih later others⟩
  | case3 args other =>
      rw [entryArguments.eq_2 args other] at found
      cases found
      nofun

section

variable {args : List Value} (all : ∀ v ∈ args, v.AllClosures p)

include all

theorem allClosures_prepend : Answer.AllClosures p (prepend args) := by
  rw [prepend.eq_def]
  split
  · next item tail =>
      obtain ⟨first, last⟩ : item.AllClosures p ∧ tail.AllClosures p := by simpa using all
      refine Answer.allClosures_map fun items listed => ?_
      exact Value.allClosures_list.mpr (List.forall_mem_cons.mpr ⟨first, listArgument_ok listed last⟩)
  · exact Answer.allClosures_error _

theorem allClosures_firstItem : Answer.AllClosures p (firstItem args) := by
  rw [firstItem.eq_def]
  split
  · next v =>
      refine Answer.allClosures_map fun items listed => ?_
      have inside := listArgument_ok listed (List.forall_mem_singleton.mp all)
      cases items with
      | nil => exact Value.allClosures_nil
      | cons item rest => exact inside item List.mem_cons_self
  · exact Answer.allClosures_error _

theorem allClosures_otherItems : Answer.AllClosures p (otherItems args) := by
  rw [otherItems.eq_def]
  split
  · next v =>
      refine Answer.allClosures_map fun items listed => Value.allClosures_list.mpr fun item mem => ?_
      exact listArgument_ok listed (List.forall_mem_singleton.mp all) item (List.mem_of_mem_tail mem)
  · exact Answer.allClosures_error _

theorem allClosures_itemAt : Answer.AllClosures p (itemAt args) := by
  rw [itemAt.eq_def]
  split
  · next v index =>
      obtain ⟨first, -⟩ := List.forall_mem_cons.mp all
      split
      · exact Answer.allClosures_error _
      · next items listed =>
          split
          · exact Answer.allClosures_error _
          · split
            · exact Answer.allClosures_error _
            · split
              · next item found =>
                  exact Answer.allClosures_ok
                    (listArgument_ok listed first item (List.mem_of_getElem? found))
              · exact Answer.allClosures_error _
  · exact Answer.allClosures_error _

theorem allClosures_valueAt : Answer.AllClosures p (valueAt args) := by
  rw [valueAt.eq_def]
  split
  · exact Answer.allClosures_ok Value.allClosures_nil
  · next v key _ =>
      obtain ⟨first, -⟩ := List.forall_mem_cons.mp all
      split
      · exact Answer.allClosures_error _
      · next entries hashed =>
          refine Answer.allClosures_map fun k _ => ?_
          cases found : entries.get? k with
          | none => exact Value.allClosures_nil
          | some value => exact hashArgument_ok hashed first _ (Dict.mem_of_get? found)
  · exact Answer.allClosures_error _

theorem allClosures_buildHash : Answer.AllClosures p (buildHash args) := by
  rw [buildHash]
  split
  · exact Answer.allClosures_error _
  · refine Answer.allClosures_map fun entries found => Value.allClosures_hash.mpr fun entry mem => ?_
    exact entryArguments_ok found all entry (Dict.mem_of_mem_ofList mem)

theorem allClosures_toRecord : Answer.AllClosures p (toRecord args) := by
  rw [toRecord.eq_def]
  split
  · next name v =>
      obtain ⟨-, second⟩ : name.AllClosures p ∧ v.AllClosures p := by simpa using all
      split
      · exact Answer.allClosures_error _
      · refine Answer.allClosures_map fun entries hashed => Value.allClosures_hash.mpr ?_
        exact hashArgument_ok hashed second
  · exact Answer.allClosures_error _

theorem allClosures_spread : (spread args).AllClosures p := by
  rw [spread.eq_def]
  split
  · next callee second more =>
      obtain ⟨called, others⟩ := List.forall_mem_cons.mp all
      dsimp only
      split
      · exact Value.allClosures_error _
      · next items listed =>
          have last : ((second :: more).getLast?.getD .nil).AllClosures p := by
            rw [List.getLast?_eq_some_getLast (List.cons_ne_nil _ _)]
            exact others _ (List.getLast_mem _)
          refine ⟨called, List.forall_mem_append.mpr ⟨fun v front => ?_, listArgument_ok listed last⟩⟩
          exact others v (List.mem_of_mem_dropLast front)
  · exact Value.allClosures_error _

theorem allClosures_overItems : (overItems args).AllClosures p := by
  rw [overItems.eq_def]
  split
  · next callee v =>
      obtain ⟨called, listed⟩ : (Value.procedure callee).AllClosures p ∧ v.AllClosures p := by
        simpa using all
      split
      · exact Value.allClosures_error _
      · next items found => exact ⟨called, listArgument_ok found listed⟩
  · exact Value.allClosures_error _
  · exact Reply.allClosures_ofAnswer (Answer.allClosures_error _)

end

/-! ### Operations whose values are data -/

theorem allClosures_difference (args : List Value) : Answer.AllClosures p (difference args) := by
  rw [difference.eq_def]
  split
  · exact Answer.allClosures_error _
  · exact Answer.allClosures_map fun _ _ => Value.allClosures_number _
  · split
    · exact Answer.allClosures_error _
    · exact Answer.allClosures_map fun _ _ => Value.allClosures_number _

theorem allClosures_quotient (args : List Value) : Answer.AllClosures p (quotient args) := by
  rw [quotient.eq_def]
  split
  · exact Answer.allClosures_error _
  · exact Answer.allClosures_map fun _ _ => Value.allClosures_number _
  · split
    · exact Answer.allClosures_error _
    · exact Answer.allClosures_map fun _ _ => Value.allClosures_number _

theorem allClosures_modulus (args : List Value) : Answer.AllClosures p (modulus args) := by
  rw [modulus.eq_def]
  split
  · split
    · exact Answer.allClosures_error _
    · exact Answer.allClosures_map fun _ _ => Value.allClosures_number _
  · exact Answer.allClosures_error _

theorem allClosures_comparison (operation : Native) (holds : Float → Float → Bool)
    (args : List Value) : Answer.AllClosures p (comparison operation holds args) := by
  rw [comparison]
  split
  · exact Answer.allClosures_error _
  · exact Answer.allClosures_map fun _ _ => Value.allClosures_bool _

theorem allClosures_size (args : List Value) : Answer.AllClosures p (size args) := by
  rw [size.eq_def]
  split
  · exact Answer.allClosures_map fun _ _ => Value.allClosures_number _
  · exact Answer.allClosures_error _

theorem allClosures_emptiness (args : List Value) : Answer.AllClosures p (emptiness args) := by
  rw [emptiness.eq_def]
  split
  · exact Answer.allClosures_map fun _ _ => Value.allClosures_bool _
  · exact Answer.allClosures_error _

theorem allClosures_toSymbol (args : List Value) : Answer.AllClosures p (toSymbol args) := by
  rw [toSymbol.eq_def]
  split
  · exact Answer.allClosures_ok (Value.allClosures_symbol _)
  · exact Answer.allClosures_ok (Value.allClosures_symbol _)
  · exact Answer.allClosures_error _
  · exact Answer.allClosures_error _

theorem allClosures_description (args : List Value) : Answer.AllClosures p (description args) := by
  rw [description.eq_def]
  split
  · split
    · exact Answer.allClosures_ok (Value.allClosures_string _)
    · exact Answer.allClosures_ok Value.allClosures_nil
  · exact Answer.allClosures_error _
  · exact Answer.allClosures_error _

theorem allClosures_keyList (args : List Value) : Answer.AllClosures p (keyList args) := by
  rw [keyList.eq_def]
  split
  · refine Answer.allClosures_map fun entries _ => Value.allClosures_list.mpr fun item mem => ?_
    obtain ⟨key, -, rfl⟩ := List.mem_map.mp mem
    exact Value.allClosures_string key
  · exact Answer.allClosures_error _

theorem allClosures_sameness (args : List Value) : Answer.AllClosures p (sameness args) := by
  rw [sameness.eq_def]
  split
  · exact Answer.allClosures_ok (Value.allClosures_bool _)
  · exact Answer.allClosures_error _

theorem allClosures_negation (args : List Value) : Answer.AllClosures p (negation args) := by
  rw [negation.eq_def]
  split
  · exact Answer.allClosures_ok (Value.allClosures_bool _)
  · exact Answer.allClosures_error _

theorem allClosures_typeOf (args : List Value) : Answer.AllClosures p (typeOf args) := by
  rw [typeOf.eq_def]
  split
  · exact Answer.allClosures_ok (Value.allClosures_string _)
  · exact Answer.allClosures_error _

theorem allClosures_raiseError (args : List Value) : Answer.AllClosures p (raiseError args) := by
  rw [raiseError.eq_def]
  split <;> exact Answer.allClosures_error _

theorem allClosures_errorTest (args : List Value) : Answer.AllClosures p (errorTest args) := by
  rw [errorTest.eq_def]
  split
  · exact Answer.allClosures_ok (Value.allClosures_bool _)
  · exact Answer.allClosures_error _

/-! ### All operations -/

/-- An operation of the native library makes no closure: those in its reply were in its
arguments. -/
theorem allClosures_reply (operation : Native) {args : List Value}
    (all : ∀ v ∈ args, v.AllClosures p) : (operation.reply args).AllClosures p := by
  cases operation with
  | add | multiply =>
      exact Reply.allClosures_ofAnswer
        (Answer.allClosures_map fun _ _ => Value.allClosures_number _)
  | subtract => exact Reply.allClosures_ofAnswer (allClosures_difference args)
  | divide => exact Reply.allClosures_ofAnswer (allClosures_quotient args)
  | remainder => exact Reply.allClosures_ofAnswer (allClosures_modulus args)
  | equal | less | lessEqual | greater | greaterEqual =>
      exact Reply.allClosures_ofAnswer (allClosures_comparison _ _ args)
  | same => exact Reply.allClosures_ofAnswer (allClosures_sameness args)
  | not => exact Reply.allClosures_ofAnswer (allClosures_negation args)
  | list => exact Value.allClosures_list.mpr all
  | cons => exact Reply.allClosures_ofAnswer (allClosures_prepend all)
  | car => exact Reply.allClosures_ofAnswer (allClosures_firstItem all)
  | cdr => exact Reply.allClosures_ofAnswer (allClosures_otherItems all)
  | count => exact Reply.allClosures_ofAnswer (allClosures_size args)
  | isEmpty => exact Reply.allClosures_ofAnswer (allClosures_emptiness args)
  | nth => exact Reply.allClosures_ofAnswer (allClosures_itemAt all)
  | concat =>
      exact Reply.allClosures_ofAnswer (Answer.allClosures_map fun joined found =>
        Value.allClosures_list.mpr (joinItems_ok found all))
  | text => exact Value.allClosures_string _
  | symbol => exact Reply.allClosures_ofAnswer (allClosures_toSymbol args)
  | typeName => exact Reply.allClosures_ofAnswer (allClosures_typeOf args)
  | raise => exact Reply.allClosures_ofAnswer (allClosures_raiseError args)
  | isError => exact Reply.allClosures_ofAnswer (allClosures_errorTest args)
  | hashMap => exact Reply.allClosures_ofAnswer (allClosures_buildHash all)
  | get => exact Reply.allClosures_ofAnswer (allClosures_valueAt all)
  | keys => exact Reply.allClosures_ofAnswer (allClosures_keyList args)
  | struct => exact Reply.allClosures_ofAnswer (allClosures_toRecord all)
  | print | printLine => exact True.intro
  | readLine =>
      rw [reply, nextLine.eq_def]
      split
      · exact True.intro
      · exact Reply.allClosures_ofAnswer (Answer.allClosures_error _)
  | apply => exact allClosures_spread all
  | map => exact allClosures_overItems all
  | help => exact Reply.allClosures_ofAnswer (allClosures_description args)

end Native

end Lisp
