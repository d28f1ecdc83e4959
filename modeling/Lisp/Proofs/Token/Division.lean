import Lisp.Proofs.Token.Rules

/-! A text is divided into tokens and the fillers around them. Fillers consist of separators and
comments, and only the last one may end within a comment. -/

set_option autoImplicit false

namespace Lisp

/-! ## Fillers -/

/-- Separators and comments that are ended by a line feed or a carriage return. -/
inductive Filler : List Char → Prop where
  | nil : Filler []
  | separator {c : Char} {rest : List Char} (separates : isSeparator c = true)
      (others : Filler rest) : Filler (c :: rest)
  | comment {text rest : List Char} {stop : Char} (inside : ∀ c ∈ text, endsComment c = false)
      (ends : endsComment stop = true) (others : Filler rest) :
      Filler (';' :: (text ++ stop :: rest))

/-- A filler at the end of a text, where nothing has to end the last comment. -/
inductive LastFiller : List Char → Prop where
  | closed {filler : List Char} (closed : Filler filler) : LastFiller filler
  | comment {filler text : List Char} (others : Filler filler)
      (inside : ∀ c ∈ text, endsComment c = false) : LastFiller (filler ++ ';' :: text)

theorem Filler.append {front back : List Char} (first : Filler front) (second : Filler back) :
    Filler (front ++ back) := by
  induction first with
  | nil => exact second
  | separator separates _ ih => exact .separator separates ih
  | comment inside ends _ ih =>
      rw [List.cons_append, List.append_assoc]
      exact .comment inside ends ih

theorem LastFiller.prepend {front last : List Char} (first : Filler front)
    (trailing : LastFiller last) : LastFiller (front ++ last) := by
  cases trailing with
  | closed closed => exact .closed (first.append closed)
  | comment others inside =>
      rw [← List.append_assoc]
      exact .comment (first.append others) inside

/-- The end of a line also ends a comment that reaches up to it. -/
theorem LastFiller.endLine {last : List Char} (trailing : LastFiller last) {stop : Char}
    (ends : endsComment stop = true) : Filler (last ++ [stop]) := by
  cases trailing with
  | closed closed =>
      exact closed.append (.separator (isSeparator_of_endsComment ends) .nil)
  | comment others inside =>
      rw [List.append_assoc]
      exact others.append (.comment inside ends .nil)

theorem Filler.delimited {filler : List Char} (fills : Filler filler) (nonempty : filler ≠ [])
    (rest : List Char) : Delimited (filler ++ rest) := by
  cases fills with
  | nil => exact absurd rfl nonempty
  | separator separates _ => exact delimited_separator separates _
  | comment _ _ _ => exact delimited_cons rfl _

theorem LastFiller.delimited {last : List Char} (trailing : LastFiller last) : Delimited last := by
  cases trailing with
  | closed fills =>
      cases fills with
      | nil => exact delimited_nil
      | separator separates _ => exact delimited_separator separates _
      | comment _ _ _ => exact delimited_cons rfl _
  | comment others inside =>
      cases others with
      | nil => exact delimited_cons rfl _
      | separator separates _ => exact delimited_separator separates _
      | comment _ _ _ => exact delimited_cons rfl _

theorem tokensAt_filler (offset : Nat) {filler : List Char} (fills : Filler filler)
    (rest : List Char) :
    tokensAt offset (filler ++ rest) = tokensAt (offset + byteLength filler) rest := by
  induction fills generalizing offset with
  | nil => rfl
  | separator separates _ ih =>
      rw [List.cons_append, tokensAt_separator _ separates, ih, byteLength, Nat.add_assoc]
  | @comment text others stop inside ends _ ih =>
      have shape : ';' :: (text ++ stop :: others) = ';' :: (text ++ [stop]) ++ others := by simp
      rw [List.cons_append, List.append_assoc, List.cons_append, tokensAt_comment _ inside ends, ih,
        shape, byteLength_append, Nat.add_assoc]

theorem tokensAt_lastFiller (offset : Nat) {last : List Char} (trailing : LastFiller last) :
    tokensAt offset last = [] := by
  cases trailing with
  | closed closed =>
      rw [← List.append_nil last, tokensAt_filler _ closed, tokensAt_nil]
  | comment others inside => rw [tokensAt_filler _ others, tokensAt_lastComment _ inside]

theorem tokensAt_scanned (offset : Nat) {kind : TokenKind} {rest : List Char}
    (scanned : Scanned kind rest) :
    tokensAt offset (kind.text.toList ++ rest) =
      kind.placedAt offset :: tokensAt (offset + kind.text.utf8ByteSize) rest := by
  obtain ⟨c, more, text, notSeparator, notComment, scans⟩ := scanned.scans
  rw [text, List.cons_append, tokensAt_token _ notSeparator notComment, scans]

/-! ## Divisions -/

/-- A text that starts at byte `offset` is divided into fillers and tokens. -/
inductive Divided : (offset : Nat) → List Char → List Token → Prop where
  | last {offset : Nat} {last : List Char} (trailing : LastFiller last) : Divided offset last []
  | token {offset : Nat} {filler rest : List Char} {kind : TokenKind} {tokens : List Token}
      (fills : Filler filler) (scanned : Scanned kind rest)
      (others : Divided (offset + byteLength filler + kind.text.utf8ByteSize) rest tokens) :
      Divided offset (filler ++ (kind.text.toList ++ rest))
        (kind.placedAt (offset + byteLength filler) :: tokens)

theorem Divided.prepend {offset : Nat} {front cs : List Char} {tokens : List Token}
    (first : Filler front) (divided : Divided (offset + byteLength front) cs tokens) :
    Divided offset (front ++ cs) tokens := by
  -- The division stands at a sum, which is no index to split it by.
  generalize place : offset + byteLength front = start at divided
  cases divided with
  | last trailing => exact .last (.prepend first trailing)
  | @token _ filler rest kind tokens fills scanned others =>
      have further : start + byteLength filler = offset + byteLength (front ++ filler) := by
        rw [byteLength_append, ← place, Nat.add_assoc]
      rw [further] at others ⊢
      rw [← List.append_assoc]
      exact .token (first.append fills) scanned others

theorem divided_tokensAt (offset : Nat) (cs : List Char) :
    Divided offset cs (tokensAt offset cs) := by
  induction cs using text_induction generalizing offset with
  | nil => exact .last (.closed .nil)
  | separator c rest separates ih =>
      rw [tokensAt_separator _ separates]
      have first : Filler [c] := .separator separates .nil
      exact .prepend first (ih _)
  | lastComment text inside =>
      rw [tokensAt_lastComment _ inside]
      exact .last (.comment .nil inside)
  | comment text stop rest inside ends ih =>
      rw [tokensAt_comment _ inside ends]
      have shape : ';' :: (text ++ stop :: rest) = ';' :: (text ++ [stop]) ++ rest := by simp
      rw [shape]
      exact .prepend (.comment inside ends .nil) (ih _)
  | token c rest notSeparator notComment ih =>
      have scanned := scanned_scanToken notSeparator notComment rest
      have divided := Divided.token Filler.nil scanned (ih (offset + byteLength [] + _))
      rw [tokensAt_token _ notSeparator notComment]
      rwa [List.nil_append, scanToken_append c rest] at divided

theorem Divided.scanned_of_mem {offset : Nat} {cs : List Char} {tokens : List Token} {token : Token}
    (divided : Divided offset cs tokens) (present : token ∈ tokens) :
    ∃ front back, cs = front ++ (token.kind.text.toList ++ back) ∧
      token = token.kind.placedAt (offset + byteLength front) ∧ Scanned token.kind back := by
  induction divided with
  | last trailing => cases present
  | @token offset filler rest kind tokens fills scanned others ih =>
      rcases List.mem_cons.mp present with rfl | later
      · exact ⟨filler, rest, rfl, rfl, scanned⟩
      · obtain ⟨front, back, rfl, place, scannedLater⟩ := ih later
        refine ⟨filler ++ (kind.text.toList ++ front), back, by simp, ?_, scannedLater⟩
        rwa [byteLength_append, byteLength_append, byteLength_toList, ← Nat.add_assoc,
          ← Nat.add_assoc]

/-- Tokens with their closing quotes stay as they are when the line ends behind them and another
text follows. -/
theorem tokensAt_endLine {offset : Nat} {cs : List Char} {tokens : List Token}
    (divided : Divided offset cs tokens) (accepted : ∀ token ∈ tokens, Accepted token.kind)
    {stop : Char} (ends : endsComment stop = true) (after : List Char) :
    tokensAt offset (cs ++ stop :: after) =
      tokens ++ tokensAt (offset + byteLength (cs ++ [stop])) after := by
  induction divided with
  | @last offset last trailing =>
      have filler := tokensAt_filler offset (trailing.endLine ends) after
      rwa [List.append_assoc] at filler
  | @token offset filler rest kind tokens fills scanned others ih =>
      -- The last token was delimited by the end of the text; now the end of the line does that.
      obtain ⟨closed, acceptedOthers⟩ := List.forall_mem_cons.mp accepted
      have separates := delimited_separator (isSeparator_of_endsComment ends) after
      have place : offset + byteLength filler + kind.text.utf8ByteSize +
          byteLength (rest ++ [stop]) =
          offset + byteLength (filler ++ (kind.text.toList ++ rest) ++ [stop]) := by
        simp only [byteLength_append, byteLength_toList, Nat.add_assoc]
      rw [List.append_assoc, List.append_assoc, tokensAt_filler offset fills,
        tokensAt_scanned _ (scanned.append closed separates), ih acceptedOthers, place]
      rfl

end Lisp
