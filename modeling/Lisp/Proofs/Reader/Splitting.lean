import Lisp.Proofs.Reader.Places

/-! A text that is read to its end can be continued on a new line. The expressions of the whole are
its own, followed by those of the continuation. -/

set_option autoImplicit false

namespace Lisp

theorem Derives.accepted {phrase : Phrase} {ks : List TokenKind} (derived : Derives phrase ks) :
    ∀ kind ∈ ks, Accepted kind := by
  induction derived with
  | atom text => exact List.forall_mem_singleton.mpr trivial
  | @string text opener written meaning shape denotes =>
      have unquoted := Text.unquote?_eq_some.mpr ⟨opener, written, meaning, shape, denotes, rfl⟩
      exact List.forall_mem_singleton.mpr (Option.isSome_of_eq_some unquoted)
  | bracketed _ _ ih =>
      refine List.forall_mem_cons.mpr ⟨trivial, List.forall_mem_append.mpr ⟨ih, ?_⟩⟩
      exact List.forall_mem_singleton.mpr trivial
  | marked marker _ ih => exact List.forall_mem_cons.mpr ⟨trivial, ih⟩
  | nil => exact nofun
  | cons _ _ firstIH restIH => exact List.forall_mem_append.mpr ⟨firstIH, restIH⟩

/-- Rounds beyond those that suffice make no difference. -/
theorem readForms_eq {rounds rounds' : Nat} {tokens : List Token} (enough : tokens.length ≤ rounds)
    (enough' : tokens.length ≤ rounds') : readForms rounds tokens = readForms rounds' tokens := by
  induction rounds generalizing rounds' tokens with
  | zero =>
      obtain rfl := List.length_eq_zero_iff.mp (Nat.le_zero.mp enough)
      rw [readForms_nil, readForms_nil]
  | succ rounds ih =>
      cases rounds' with
      | zero =>
          obtain rfl := List.length_eq_zero_iff.mp (Nat.le_zero.mp enough')
          rw [readForms_nil, readForms_nil]
      | succ rounds' =>
          rw [readForms, readForms]
          rcases read : readOne tokens with ⟨e | (_ | form), rest⟩
          · rfl
          · rfl
          · obtain ⟨front, rfl, derived⟩ := readOne_iff_derives.mp read
            have shorter := derived.length_rest rest
            have others : readForms rounds rest = readForms rounds' rest :=
              ih (by omega) (by omega)
            simp only [others]

theorem readForms_append {rounds : Nat} {front : List Token} {values : List Value}
    (derived : Derives (.forms values) (kinds front)) (rest : List Token)
    (enough : (front ++ rest).length ≤ rounds) :
    readForms rounds (front ++ rest) =
      (values ++ (readForms rest.length rest).1, (readForms rest.length rest).2) := by
  induction values generalizing front rounds with
  | nil =>
      rcases derived.forms_cases with ⟨-, rfl⟩ | ⟨_, _, _, _, shape, -⟩
      · exact readForms_eq enough (Nat.le_refl _)
      · cases shape
  | cons value others ih =>
      rcases derived.forms_cases with
        ⟨shape, -⟩ | ⟨_, _, first, back, shape, rfl, derivedFirst, later⟩
      · cases shape
      · cases shape
        have shorter := derivedFirst.length_rest (back ++ rest)
        rw [List.append_assoc] at enough ⊢
        cases rounds with
        | zero => omega
        | succ rounds =>
            have read := ih later (by omega : (back ++ rest).length ≤ rounds)
            rw [readForms, readOne_of_derives derivedFirst]
            simp only [read, List.cons_append]

/-! ## Texts -/

theorem readForms_tokenize (source : String) :
    readForms (tokenize source).length (tokenize source) =
      ((Script.ofText source).forms, (Script.ofText source).failure) :=
  rfl

theorem derives_of_noFailure {source : String} (complete : (Script.ofText source).failure = none) :
    Derives (.forms (Script.ofText source).forms) (kinds (tokenize source)) := by
  have read := readForms_tokenize source
  rw [complete] at read
  exact (readForms_iff_derives (Nat.le_refl _)).mp read

/-- The place at which a text stands that follows another one on a new line. -/
def nextLine (source : String) : Nat :=
  source.utf8ByteSize + 1

/-- The tokens of a text that is read to its end stay as they are before a new line, and those
behind it are the ones of the continuation. -/
theorem tokenize_continued {first : String} (complete : (Script.ofText first).failure = none)
    (second : String) :
    tokenize (first ++ "\n" ++ second) =
      tokenize first ++ (tokenize second).map (Token.mapSpan (.shift (nextLine first))) := by
  have accepted : ∀ token ∈ tokensAt 0 first.toList, Accepted token.kind := fun token present =>
    (derives_of_noFailure complete).accepted token.kind (List.mem_map_of_mem present)
  have ends : endsComment '\n' = true := rfl
  have continued := tokensAt_endLine (divided_tokensAt 0 first.toList) accepted ends second.toList
  have place : 0 + byteLength (first.toList ++ ['\n']) = 0 + nextLine first := by
    rw [byteLength_append, byteLength_toList]
    rfl
  rw [place, tokensAt_shift] at continued
  have shape : (first ++ "\n" ++ second).toList = first.toList ++ '\n' :: second.toList := by
    simp
  rw [tokenize_eq, shape, continued]
  rfl

theorem Span.shift_merge (distance : Nat) (a b : Span) :
    Span.shift distance (a.merge b) = (a.shift distance).merge (b.shift distance) := by
  simp only [Span.shift, Span.merge, Nat.add_min_add_right, Nat.add_max_add_right]

theorem Script.ofText_continued {first : String} (complete : (Script.ofText first).failure = none)
    (second : String) :
    Script.ofText (first ++ "\n" ++ second) =
      ⟨(Script.ofText first).forms ++ (Script.ofText second).forms,
        (Script.ofText second).failure.map (.mapSpan (.shift (nextLine first)))⟩ := by
  have read := readForms_append (derives_of_noFailure complete)
    ((tokenize second).map (Token.mapSpan (.shift (nextLine first)))) (Nat.le_refl _)
  rw [readForms_mapSpan (Span.shift_merge _), List.length_map, readForms_tokenize] at read
  rw [Script.ofText, tokenize_continued complete, read]

end Lisp
