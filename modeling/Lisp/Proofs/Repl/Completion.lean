import Lisp.Proofs.Report
import Lisp.Proofs.Store.Operations
import Lisp.Repl.Completion

/-! What completes the atom before the cursor: the rests of the visible names and of the keywords that
start with it. Typed there, such a rest goes on with the atom, and no other token changes. -/

set_option autoImplicit false

namespace Lisp

/-! ## Longer atoms -/

theorem Divided.ne_nil {offset : Nat} {cs : List Char} {token : Token} {tokens : List Token}
    (divided : Divided offset cs (token :: tokens)) : cs ≠ [] := by
  obtain ⟨front, back, rfl, -, scanned⟩ := divided.scanned_of_mem List.mem_cons_self
  obtain ⟨c, more, text, -⟩ := scanned.scans
  simp [text]

theorem Scanned.append_atom {atom : String} {rest more : List Char}
    (scanned : Scanned (.atom atom) rest) (continues : ∀ c ∈ more, continuesAtom c = true) :
    Scanned (.atom (atom ++ .ofList more)) [] := by
  cases scanned with
  | atom starts others _ =>
      rw [← String.ofList_append]
      exact .atom starts (List.forall_mem_append.mpr ⟨others, continues⟩) delimited_nil

/-- What may continue an atom goes on with the one that ends a text. Tokens before it stay as they are
if their closing quotes are there. -/
theorem Divided.tokensAt_append_atom {offset : Nat} {cs : List Char} {tokens front : List Token}
    {atom : String} {start : Nat} (divided : Divided offset cs tokens)
    (last : tokens = front ++ [⟨.atom atom, ⟨start, offset + byteLength cs⟩⟩])
    (accepted : ∀ token ∈ front, Accepted token.kind) {more : List Char}
    (continues : ∀ c ∈ more, continuesAtom c = true) :
    tokensAt offset (cs ++ more) =
      front ++ [⟨.atom (atom ++ .ofList more), ⟨start, offset + byteLength (cs ++ more)⟩⟩] := by
  induction divided generalizing front with
  | last trailing => simp at last
  | @token offset filler rest kind tokens fills scanned others ih =>
      have place (after : List Char) :
          offset + byteLength (filler ++ (kind.text.toList ++ after)) =
            offset + byteLength filler + kind.text.utf8ByteSize + byteLength after := by
        simp only [byteLength_append, byteLength_toList, Nat.add_assoc]
      rw [place] at last
      rw [List.append_assoc, List.append_assoc, place, tokensAt_filler offset fills]
      cases front with
      | nil =>
          obtain ⟨atEnd, rfl⟩ := List.cons.inj last
          obtain ⟨rfl, span⟩ := Token.mk.inj atEnd
          obtain ⟨rfl, stop⟩ := Span.mk.inj span
          -- The atom reaches to the end of the text, so nothing comes after it.
          obtain rfl : rest = [] := by
            by_contra nonempty
            exact (byteLength_pos nonempty).ne (Nat.add_left_cancel stop)
          have longer := tokensAt_scanned (offset + byteLength filler)
            (scanned.append_atom continues)
          rw [List.append_nil, tokensAt_nil] at longer
          simpa [TokenKind.text, TokenKind.placedAt, byteLength_ofList, Nat.add_assoc] using longer
      | cons token front =>
          obtain ⟨rfl, othersLast⟩ := List.cons.inj last
          obtain ⟨closed, acceptedOthers⟩ := List.forall_mem_cons.mp accepted
          have nonempty : rest ≠ [] := by
            cases tokens with
            | nil => simp at othersLast
            | cons first tokens => exact others.ne_nil
          rw [tokensAt_scanned _ (scanned.append_of_ne_nil closed nonempty more),
            ih othersLast acceptedOthers]
          rfl

/-! ## Visible names -/

namespace Store

variable {s : Store} {f : FrameId}

/-- The name is bound in the frame or in one that encloses it. -/
def BoundFrom (s : Store) (f : FrameId) (name : String) : Prop :=
  ∃ path, Ancestry s f path ∧ ∃ g ∈ path, (s.own? g name).isSome

theorem Ancestry.unique {path other : List FrameId} (ancestry : Ancestry s f path)
    (ancestry' : Ancestry s f other) : path = other := by
  induction ancestry generalizing other with
  | root present noOuter =>
      cases ancestry' with
      | root => rfl
      | enclosed link _ => cases noOuter.symm.trans link
  | enclosed link rest ih =>
      cases ancestry' with
      | root _ noOuter => cases noOuter.symm.trans link
      | enclosed link' rest' =>
          cases link.symm.trans link'
          rw [ih rest']

theorem Forest.mem_identifiers_iff (forest : Forest s) (present : f < s.frames.size)
    (name : String) : name ∈ s.identifiers f ↔ s.BoundFrom f name := by
  rw [forest.mem_identifiers, lookup?, List.findSome?_isSome_iff]
  constructor
  · exact fun bound => ⟨s.chain f, forest.ancestry present, bound⟩
  · rintro ⟨path, ancestry, bound⟩
    rwa [(forest.ancestry present).unique ancestry]

end Store

theorem Keyword.mem_names {name : String} : name ∈ names ↔ ∃ k : Keyword, k.name = name := by
  have listed (k : Keyword) : k ∈ all := by cases k <;> decide
  simp [names, Dict.mem_keys_ofList, listed]

end Lisp

namespace Lisp.Repl

variable {s : Store} {f : FrameId}

/-! ## The atom before the cursor -/

/-- The last token of the text is the atom, from byte `start` to the end. -/
def EndsInAtom (text : List Char) (start : Nat) (atom : String) : Prop :=
  (tokenize (.ofList text)).getLast? = some ⟨.atom atom, ⟨start, byteLength text⟩⟩

theorem lineUpTo_append (front back : List Char) :
    lineUpTo (.ofList (front ++ back)) (byteLength front) = .ofList front := by
  rw [lineUpTo, String.toList_ofList, charIndex?_byteLength, Option.getD_some, List.take_left]

theorem finalAtom?_eq_some {text : List Char} {atom : String} :
    finalAtom? (.ofList text) = some atom ↔ ∃ start, EndsInAtom text start atom := by
  rw [finalAtom?, byteLength_ofList]
  split
  · next name span found =>
      simp only [EndsInAtom, found, Option.some.injEq, Token.mk.injEq, TokenKind.atom.injEq]
      obtain ⟨first, stop⟩ := span
      split <;> simp_all
  · next other =>
      simp only [EndsInAtom, reduceCtorEq, false_iff, not_exists]
      exact fun start found => other _ _ found

/-! ## Rests of names -/

theorem dropStart?_eq_some {start text rest : List Char} :
    dropStart? start text = some rest ↔ text = start ++ rest := by
  induction start generalizing text with
  | nil => simp [dropStart?]
  | cons s start ih =>
      cases text with
      | nil => simp [dropStart?]
      | cons c text =>
          rw [dropStart?, List.cons_append, List.cons.injEq]
          split
          · next same => simp [ih, same]
          · next distinct => simp [Ne.symm distinct]

theorem remainder?_eq_some {start name rest : String} :
    remainder? start name = some rest ↔ rest ≠ "" ∧ name = start ++ rest := by
  have joined : name = start ++ rest ↔ dropStart? start.toList name.toList = some rest.toList := by
    rw [dropStart?_eq_some, ← String.toList_append, String.toList_inj]
  have nonempty : rest ≠ "" ↔ rest.toList ≠ [] := by simp
  rw [joined, nonempty, remainder?]
  split
  · next found => simp [found]
  · next cs noEnd found =>
      rw [found, Option.some.injEq, Option.some.injEq]
      constructor
      · rintro rfl
        rw [String.toList_ofList]
        exact ⟨noEnd, rfl⟩
      · rintro ⟨-, rfl⟩
        exact String.ofList_toList
  · next found => simp [found]

theorem lt_of_append_lt {start rest other : String} (less : start ++ rest < start ++ other) :
    rest < other := by
  by_contra notLess
  rcases (le_of_not_gt notLess).eq_or_lt with rfl | greater
  · exact lt_irrefl _ less
  · rw [String.lt_iff_toList_lt] at greater
    have longer : start.toList ++ other.toList < start.toList ++ rest.toList :=
      List.append_left_lt greater
    rw [← String.toList_append, ← String.toList_append, ← String.lt_iff_toList_lt] at longer
    exact lt_asymm less longer

theorem mem_completable (forest : s.Forest) (present : f < s.frames.size) {name : String} :
    name ∈ completable s f ↔ s.BoundFrom f name ∨ ∃ k : Keyword, k.name = name := by
  rw [completable, Dict.mem_keys_ofList, List.map_map, ← forest.mem_identifiers_iff present,
    ← Keyword.mem_names, ← List.mem_append]
  exact Iff.of_eq (congrArg _ (List.map_id _))

theorem ascending_completable (s : Store) (f : FrameId) :
    (completable s f).Pairwise (· < ·) :=
  List.pairwise_map.mpr (Dict.ascending_ofList _)

/-! ## Candidates -/

/-- The candidates are what makes visible names or keywords of the atom, in ascending order, each
once. -/
structure Completes (s : Store) (f : FrameId) (atom : String) (candidates : List String) :
    Prop where
  ascending : candidates.Pairwise (· < ·)
  mem_iff : ∀ rest, rest ∈ candidates ↔
    rest ≠ "" ∧ (s.BoundFrom f (atom ++ rest) ∨ ∃ k : Keyword, k.name = atom ++ rest)

theorem completes_completable (forest : s.Forest) (present : f < s.frames.size) (atom : String) :
    Completes s f atom ((completable s f).filterMap (remainder? atom)) where
  ascending := by
    refine (ascending_completable s f).filterMap (remainder? atom) ?_
    intro name other less rest found rest' found'
    obtain ⟨-, rfl⟩ := remainder?_eq_some.mp found
    obtain ⟨-, rfl⟩ := remainder?_eq_some.mp found'
    exact lt_of_append_lt less
  mem_iff rest := by
    simp only [List.mem_filterMap, remainder?_eq_some]
    constructor
    · rintro ⟨_, mem, nonempty, rfl⟩
      exact ⟨nonempty, (mem_completable forest present).mp mem⟩
    · rintro ⟨nonempty, known⟩
      exact ⟨_, (mem_completable forest present).mpr known, nonempty, rfl⟩

theorem EndsInAtom.tokenize_append {text : List Char} {start : Nat} {atom : String}
    (ends : EndsInAtom text start atom)
    (accepted : ∀ token ∈ (tokenize (.ofList text)).dropLast, Accepted token.kind) {rest : String}
    (continues : ∀ c ∈ rest.toList, continuesAtom c = true) :
    tokenize (.ofList text ++ rest) = (tokenize (.ofList text)).dropLast ++
      [⟨.atom (atom ++ rest), ⟨start, byteLength text + rest.utf8ByteSize⟩⟩] := by
  have last := List.dropLast_append_getLast? _ ends
  have joined : String.ofList text ++ rest = .ofList (text ++ rest.toList) := by
    rw [String.ofList_append, String.ofList_toList]
  rw [tokenize_ofList] at last accepted ⊢
  have longer := (divided_tokensAt 0 text).tokensAt_append_atom
    (by rw [Nat.zero_add, last]) accepted continues
  rw [joined, tokenize_ofList, longer, Nat.zero_add, byteLength_append, byteLength_toList,
    String.ofList_toList]

/-- Before the cursor stands an atom that reaches up to it: the candidates are what makes visible names
or keywords of it, and typing what may continue it changes no other token. Anywhere else there are no
candidates. -/
theorem complete_extends (reached : Store.OperatesOn .empty s) (present : f < s.frames.size)
    (front back : List Char) :
    (complete s f (.ofList (front ++ back)) (byteLength front)).start = byteLength front ∧
    (∀ start atom, EndsInAtom front start atom →
      Completes s f atom (complete s f (.ofList (front ++ back)) (byteLength front)).candidates ∧
      ((∀ token ∈ (tokenize (.ofList front)).dropLast, Accepted token.kind) →
        ∀ rest : String, (∀ c ∈ rest.toList, continuesAtom c = true) →
          tokenize (.ofList front ++ rest) = (tokenize (.ofList front)).dropLast ++
            [⟨.atom (atom ++ rest), ⟨start, byteLength front + rest.utf8ByteSize⟩⟩])) ∧
    ((∀ start atom, ¬ EndsInAtom front start atom) →
      (complete s f (.ofList (front ++ back)) (byteLength front)).candidates = []) := by
  have forest : s.Forest := (Store.Forest.empty.operatesOn reached).1
  rw [complete, lineUpTo_append]
  cases final : finalAtom? (.ofList front) with
  | none =>
      refine ⟨rfl, fun start atom ends => ?_, fun _ => rfl⟩
      cases final.symm.trans (finalAtom?_eq_some.mpr ⟨start, ends⟩)
  | some atom =>
      refine ⟨rfl, fun start atom' ends => ⟨?_, ?_⟩, fun none => ?_⟩
      · cases final.symm.trans (finalAtom?_eq_some.mpr ⟨start, ends⟩)
        exact completes_completable forest present atom
      · exact fun accepted rest continues => ends.tokenize_append accepted continues
      · obtain ⟨start, ends⟩ := finalAtom?_eq_some.mp final
        exact absurd ends (none start atom)

/-- A global frame that binds `delta`, and a frame within it that binds `depth`. -/
private def namedStore : Store :=
  ⟨#[⟨none, [("delta", .bool true)], [], 0⟩, ⟨some 0, [("depth", .nil)], [], 0⟩], #[], #[]⟩

private theorem operatesOn_namedStore : Store.OperatesOn .empty namedStore := by
  have global : Store.OperatesOn .empty _ := .single (.addGlobal 0 false)
  have outer := global.tail (.define 0 "delta" (Value.allClosures_bool true))
  have nested := outer.tail (.enclose (show 0 < 1 by decide))
  exact nested.tail (.define 1 "depth" Value.allClosures_nil)

theorem complete_extends_nested :
    complete namedStore 1 "~(de )" 4 = ⟨4, ["fine", "fmacro!", "lta", "pth"]⟩ ∧
      Completes namedStore 1 "de" ["fine", "fmacro!", "lta", "pth"] ∧
      tokenize ("~(de" ++ "pth") =
        [⟨.mark .unquote, ⟨0, 1⟩⟩, ⟨.opening .round, ⟨1, 2⟩⟩, ⟨.atom "depth", ⟨2, 7⟩⟩] := by
  have found : complete namedStore 1 (.ofList ("~(de".toList ++ " )".toList))
      (byteLength "~(de".toList) = ⟨4, ["fine", "fmacro!", "lta", "pth"]⟩ := by decide
  have tokens : (tokenize (.ofList "~(de".toList)).dropLast =
      [⟨.mark .unquote, ⟨0, 1⟩⟩, ⟨.opening .round, ⟨1, 2⟩⟩] := by decide
  have continues : ∀ c ∈ ['p', 't', 'h'], continuesAtom c = true := List.all_eq_true.mp rfl
  obtain ⟨-, extended, -⟩ :=
    complete_extends operatesOn_namedStore (show 1 < 2 by decide) "~(de".toList " )".toList
  obtain ⟨completes, longer⟩ := extended 2 "de" rfl
  rw [found] at completes
  rw [tokens, String.ofList_toList] at longer
  exact ⟨found, completes, longer (by decide) "pth" continues⟩

end Lisp.Repl
