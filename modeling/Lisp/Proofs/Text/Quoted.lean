import Lisp.Text.Quoted
import Mathlib.Data.List.Basic

/-! What the characters between two quotes stand for, and which string tokens are closed. -/

set_option autoImplicit false

namespace Lisp.Text

/-- What is written between quotes, and the characters that it stands for: a backslash belongs to
the character after it. -/
inductive Written : List Char → List Char → Prop where
  | nil : Written [] []
  | plain {c : Char} {written meaning : List Char} (plain : c ≠ '\\')
      (rest : Written written meaning) : Written (c :: written) (c :: meaning)
  | escaped (c : Char) {written meaning : List Char} (rest : Written written meaning) :
      Written ('\\' :: c :: written) (unescapePair c ++ meaning)

/-- The length of the run of backslashes at the end. -/
def trailing (cs : List Char) : Nat :=
  (cs.reverse.takeWhile (· = '\\')).length

private theorem trailing_cons (c : Char) (cs : List Char) :
    trailing (c :: cs) =
      if trailing cs = cs.length ∧ c = '\\' then cs.length + 1 else trailing cs := by
  rw [trailing, List.reverse_cons, List.takeWhile_append, List.length_reverse]
  by_cases all : (cs.reverse.takeWhile (· = '\\')).length = cs.length
  · by_cases backslash : c = '\\' <;> simp [trailing, all, backslash]
  · simp [trailing, all]

private theorem trailing_plain {c : Char} (plain : c ≠ '\\') (cs : List Char) :
    trailing (c :: cs) = trailing cs := by
  rw [trailing_cons, if_neg fun both => plain both.2]

private theorem trailing_le (cs : List Char) : trailing cs ≤ cs.length := by
  have bound := (List.takeWhile_sublist (p := fun c => decide (c = '\\')) (l := cs.reverse)).length_le
  rwa [List.length_reverse] at bound

private theorem trailing_escaped (c : Char) (cs : List Char) :
    trailing ('\\' :: c :: cs) % 2 = trailing cs % 2 := by
  have bound := trailing_le cs
  rw [trailing_cons, trailing_cons, List.length_cons]
  simp only [and_true]
  split_ifs <;> omega

private theorem unescape_plain {c : Char} (plain : c ≠ '\\') (cs : List Char) :
    unescape (c :: cs) = c :: unescape cs :=
  unescape.eq_4 c cs (fun backslash => absurd backslash plain)
    fun _ _ backslash => absurd backslash plain

theorem Written.unescape_eq {written meaning : List Char} (derived : Written written meaning) :
    unescape written = meaning := by
  induction derived with
  | nil => rfl
  | plain plain rest ih => rw [unescape_plain plain, ih]
  | escaped c rest ih => rw [unescape, ih]

theorem Written.even_trailing {written meaning : List Char} (derived : Written written meaning) :
    trailing written % 2 = 0 := by
  induction derived with
  | nil => rfl
  | plain plain rest ih => rw [trailing_plain plain, ih]
  | escaped c rest ih => rw [trailing_escaped, ih]

/-- Text with an even run of backslashes at its end has a meaning: none is left without the
character after it. -/
theorem written_of_even {cs : List Char} (even : trailing cs % 2 = 0) :
    Written cs (unescape cs) := by
  induction cs using unescape.induct with
  | case1 => exact .nil
  | case2 => exact absurd even (by decide)
  | case3 c rest ih =>
      rw [trailing_escaped] at even
      exact .escaped c (ih even)
  | case4 c rest notLast notPair ih =>
      have plain : c ≠ '\\' := by
        intro backslash
        cases rest with
        | nil => exact notLast backslash rfl
        | cons next rest => exact notPair next rest backslash rfl
      rw [trailing_plain plain] at even
      rw [unescape_plain plain]
      exact .plain plain (ih even)

private theorem body?_concat (first last : Char) (inside : List Char) :
    body? (first :: (inside ++ [last])) =
      if last = '"' ∧ trailing inside % 2 = 0 then some inside else none := by
  have ends : (first :: (inside ++ [last])).getLast? = some last := by
    rw [← List.cons_append, List.getLast?_concat]
  have inner : ((first :: (inside ++ [last])).drop 1).dropLast = inside := by simp
  have run : (inside.reverse.takeWhile (· = '\\')).length = trailing inside := rfl
  rw [body?, ends, inner]
  dsimp only
  rw [run]
  by_cases closed : last = '"'
  · rcases Nat.mod_two_eq_zero_or_one (trailing inside) with even | odd
    · simp [closed, even]
    · simp [closed, odd]
  · simp [closed]

private theorem body?_eq_some {token body : List Char} :
    body? token = some body ↔
      ∃ first, token = first :: (body ++ ['"']) ∧ trailing body % 2 = 0 := by
  rcases token with _ | ⟨first, rest⟩
  · simp [body?]
  · rcases List.eq_nil_or_concat rest with rfl | ⟨inside, last, rfl⟩
    · simp [body?]
    · rw [List.concat_eq_append, body?_concat]
      constructor
      · intro found
        split_ifs at found with closed
        cases found
        exact ⟨first, by rw [closed.1], closed.2⟩
      · rintro ⟨other, shape, even⟩
        obtain ⟨-, tail⟩ := List.cons.inj shape
        obtain ⟨rfl, ends⟩ := List.append_inj' tail rfl
        rw [if_pos ⟨List.singleton_inj.mp ends, even⟩]

/-- A string token denotes a string just when it ends in a quote that is not escaped. -/
theorem unquote?_eq_some {token s : String} :
    unquote? token = some s ↔ ∃ first written meaning,
      token.toList = first :: (written ++ ['"']) ∧ Written written meaning ∧
        s = .ofList meaning := by
  rw [unquote?, Option.map_eq_some_iff]
  constructor
  · rintro ⟨body, found, rfl⟩
    obtain ⟨first, shape, even⟩ := body?_eq_some.mp found
    exact ⟨first, body, unescape body, shape, written_of_even even, rfl⟩
  · rintro ⟨first, written, meaning, shape, derived, rfl⟩
    exact ⟨written, body?_eq_some.mpr ⟨first, shape, derived.even_trailing⟩,
      by rw [derived.unescape_eq]⟩

end Lisp.Text
