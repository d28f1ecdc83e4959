import Lisp.Proofs.Token.Places
import Lisp.Repl.Highlight

/-! Highlighting only decorates a line. Brackets are drawn anew in the midst of a drawing that has
grown since, and yet every character comes to be drawn once and in the style that the line itself
gives to it. -/

set_option autoImplicit false

namespace Lisp.Repl

/-! ## Escape sequences -/

/-- The escape sequence with which a style starts: green for strings, red for brackets that do not
match and blue for a pair, in bold where the bracket is an opening one. -/
def startSequence : Style → List Char
  | .plain => []
  | .string => "\x1b[32m".toList
  | .wrongCloser => "\x1b[31m".toList
  | .wrongOpener => "\x1b[1;31m".toList
  | .pairCloser => "\x1b[34m".toList
  | .pairOpener => "\x1b[1;34m".toList

/-- The escape sequence with which a style ends. -/
def resetSequence : Style → List Char
  | .plain => []
  | _ => "\x1b[0m".toList

/-- A character between the escape sequences for its style. -/
def coloured (style : Style) (c : Char) : List Char :=
  startSequence style ++ c :: resetSequence style

theorem paint_eq_coloured (style : Style) (c : Char) : style.paint c = coloured style c := by
  cases style <;> rfl

/-! ## The styles of a line -/

/-- The styles of the characters of a text, and of the brackets that were open before it, from the
innermost. -/
structure Styles where
  text : List Style
  openers : List Style
  deriving DecidableEq, Repr

def Styles.add (style : Style) (s : Styles) : Styles :=
  ⟨style :: s.text, s.openers⟩

/-- The styles of an opening and a closing bracket that meet, each given with its byte position. A
cursor stands directly behind a bracket, which takes a single byte. -/
def meetingStyles (cursor : Nat) (opener closer : Bracket × Nat) : Style × Style :=
  if opener.1 ≠ closer.1 then (.wrongOpener, .wrongCloser)
  else if opener.2 + 1 = cursor ∨ closer.2 + 1 = cursor then (.pairOpener, .pairCloser)
  else (.plain, .plain)

/-- The styles of a line from byte `position` on, with the brackets in `opened` still open, the
innermost first. -/
def stylesFrom (cursor : Nat) (region : Region) (opened : List (Bracket × Nat)) (position : Nat) :
    List Char → Styles
  | [] => ⟨[], opened.map fun _ => .plain⟩
  | c :: rest =>
    let next := position + c.utf8Size
    match region with
    | .string true => (stylesFrom cursor (.string false) opened next rest).add .string
    | .string false =>
      let within : Region :=
        if c = '\\' then .string true else if c = '"' then .code else .string false
      (stylesFrom cursor within opened next rest).add .string
    | _ =>
      if c = '"' then (stylesFrom cursor (.string false) opened next rest).add .string
      else
        match Bracket.ofOpener? c, Bracket.ofCloser? c with
        | some b, _ =>
          -- Its own style is the one that the rest of the line gives to it.
          let later := stylesFrom cursor .code ((b, position) :: opened) next rest
          ⟨later.openers.headD .plain :: later.text, later.openers.tail⟩
        | none, none => (stylesFrom cursor .code opened next rest).add .plain
        | none, some b =>
          match opened with
          | [] => (stylesFrom cursor .code [] next rest).add .wrongCloser
          | top :: outer =>
            let later := stylesFrom cursor .code outer next rest
            let styles := meetingStyles cursor top (b, position)
            ⟨styles.2 :: later.text, styles.1 :: later.openers⟩

/-- The styles of the characters of a line, for a cursor at a byte position. -/
def lineStyles (line : String) (position : Nat) : List Style :=
  (stylesFrom position .code [] 0 line.toList).text

/-- The characters of a text, each between the escape sequences for its style. -/
def painted (styles : List Style) (text : List Char) : List Char :=
  (List.zipWith coloured styles text).flatten

/-! ## Replacements -/

theorem utf8Size_opener (b : Bracket) : b.opener.utf8Size = 1 := by
  cases b <;> rfl

theorem replaceByte?_append {c : Char} (single : c.utf8Size = 1)
    (replacement before after : List Char) :
    replaceByte? replacement (before ++ c :: after) (byteLength before) =
      some (before ++ (replacement ++ after)) := by
  induction before with
  | nil => rw [List.nil_append, byteLength, replaceByte?, if_pos single, List.nil_append]
  | cons first before ih =>
      obtain ⟨place, shape⟩ : ∃ place, byteLength (first :: before) = place + 1 :=
        Nat.exists_eq_add_one.mpr (byteLength_pos (List.cons_ne_nil _ _))
      have size : byteLength (first :: before) = first.utf8Size + byteLength before := rfl
      have rest : place + 1 - first.utf8Size = byteLength before := by omega
      rw [shape, List.cons_append, replaceByte?, if_pos (by omega), rest, ih, Option.map_some,
        List.cons_append]

/-! ## Layers -/

/-- A drawing in layers: what was drawn before all open brackets and, above it, each of them with what
has been drawn since. -/
inductive Layers where
  | ground (text : List Char)
  | above (outer : Layers) (bracket : Bracket) (position : Nat) (text : List Char)

namespace Layers

/-- The drawing with the open brackets in the given styles, from the innermost. Where there is none
for a bracket it is plain. -/
def drawn : Layers → List Style → List Char
  | ground text, _ => text
  | above outer bracket _ text, styles =>
    outer.drawn styles.tail ++ ((styles.headD .plain).paint bracket.opener ++ text)

def brackets : Layers → List (Bracket × Nat)
  | ground _ => []
  | above outer bracket position _ => (bracket, position) :: outer.brackets

/-- The open brackets with their places in the drawing, in which all of them are plain. -/
def opened : Layers → List OpenBracket
  | ground _ => []
  | above outer bracket position _ =>
    ⟨bracket, position, byteLength (outer.drawn [])⟩ :: outer.opened

def append : Layers → List Char → Layers
  | ground text, more => ground (text ++ more)
  | above outer bracket position text, more => above outer bracket position (text ++ more)

def drawing (layers : Layers) (region : Region) (position : Nat) : Drawing :=
  ⟨region, layers.opened, position, layers.drawn []⟩

variable (layers : Layers)

@[simp]
theorem drawn_append (more : List Char) (styles : List Style) :
    (layers.append more).drawn styles = layers.drawn styles ++ more := by
  cases layers with
  | ground text => rfl
  | above outer bracket position text => simp only [append, drawn, List.append_assoc]

@[simp]
theorem opened_append (more : List Char) : (layers.append more).opened = layers.opened := by
  cases layers <;> rfl

@[simp]
theorem brackets_append (more : List Char) : (layers.append more).brackets = layers.brackets := by
  cases layers <;> rfl

theorem drawn_plain : layers.drawn (layers.brackets.map fun _ => .plain) = layers.drawn [] := by
  induction layers with
  | ground text => rfl
  | above outer bracket position text ih =>
      simp only [drawn, brackets, List.map_cons, List.tail_cons, List.headD_cons, ih, List.tail_nil,
        List.headD_nil]

theorem found {o : OpenBracket} (mem : o ∈ layers.opened) :
    ∃ before after, layers.drawn [] = before ++ o.bracket.opener :: after ∧
      byteLength before = o.drawnAt := by
  induction layers with
  | ground text => cases mem
  | above outer bracket position text ih =>
      rcases List.mem_cons.mp mem with rfl | further
      · exact ⟨outer.drawn [], text, rfl, rfl⟩
      · obtain ⟨before, after, shape, place⟩ := ih further
        refine ⟨before, after ++ (Style.plain.paint bracket.opener ++ text), ?_, place⟩
        rw [drawn, List.tail_nil, List.headD_nil, shape, List.append_assoc, List.cons_append]

theorem redraw?_innermost {outer : Layers} {bracket : Bracket} {place : Nat} {text : List Char}
    (region : Region) (position : Nat) (more : List Char) (style : Style) :
    Drawing.redraw?
        ⟨region, outer.opened, position, (above outer bracket place text).drawn [] ++ more⟩
        ⟨bracket, place, byteLength (outer.drawn [])⟩ style =
      some ((outer.append (style.paint bracket.opener ++ (text ++ more))).drawing region
        position) := by
  -- What has been drawn since stands behind the bracket, so its recorded place is still right.
  have replaced := replaceByte?_append (utf8Size_opener bracket) (style.paint bracket.opener)
    (outer.drawn []) (text ++ more)
  have shape : (above outer bracket place text).drawn [] ++ more =
      outer.drawn [] ++ bracket.opener :: (text ++ more) :=
    List.append_assoc _ _ _
  rw [Drawing.redraw?, shape, replaced, drawing, opened_append, drawn_append]
  rfl

end Layers

/-! ## Drawing -/

theorem behindCursor_eq_some {cursor place : Nat} :
    behindCursor cursor = some place ↔ place + 1 = cursor := by
  cases cursor with
  | zero => simp [behindCursor]
  | succ before => simp [behindCursor, eq_comm]

variable (cursor : Nat) (layers : Layers) (region : Region) (position : Nat) (c : Char)

/-- One character is drawn, and what the line makes of it and of the open brackets is in agreement.
With the styles that the rest of the line gives to the open brackets, the drawing is the one before,
with the styles that the character and the rest give to them, and then the character in its own. -/
def Proceeds : Prop :=
  ∃ (next : Layers) (region' : Region),
    (layers.drawing region position).step? (behindCursor cursor) c =
      some (next.drawing region' (position + c.utf8Size)) ∧
    ∀ rest, ∃ style,
      (stylesFrom cursor region layers.brackets position (c :: rest)).text =
        style :: (stylesFrom cursor region' next.brackets (position + c.utf8Size) rest).text ∧
      next.drawn (stylesFrom cursor region' next.brackets (position + c.utf8Size) rest).openers =
        layers.drawn (stylesFrom cursor region layers.brackets position (c :: rest)).openers ++
          style.paint c

variable {cursor layers region position c}

theorem Proceeds.apart {region' : Region} {style : Style}
    (drawn : (layers.drawing region position).step? (behindCursor cursor) c =
      some ((layers.drawing region position).add region' style c))
    (styled : ∀ rest, stylesFrom cursor region layers.brackets position (c :: rest) =
      (stylesFrom cursor region' layers.brackets (position + c.utf8Size) rest).add style) :
    Proceeds cursor layers region position c := by
  refine ⟨layers.append (style.paint c), region', ?_, fun rest => ⟨style, ?_, ?_⟩⟩
  · rw [drawn, Drawing.add, Layers.drawing, Layers.drawing, Layers.opened_append,
      Layers.drawn_append]
  · rw [styled, Layers.brackets_append, Styles.add]
  · rw [styled, Layers.brackets_append, Styles.add, Layers.drawn_append]

section Outside

variable (outside : ∀ escaped, region ≠ .string escaped)

include outside

theorem Proceeds.opening (b : Bracket) : Proceeds cursor layers region position b.opener := by
  refine ⟨.above layers b position [], .code, ?_, fun rest => ?_⟩
  · cases region with
    | string escaped => exact absurd rfl (outside escaped)
    | code | comment => cases b <;> rfl
  · have styled : stylesFrom cursor region layers.brackets position (b.opener :: rest) =
        let later := stylesFrom cursor .code ((b, position) :: layers.brackets)
          (position + b.opener.utf8Size) rest
        ⟨later.openers.headD .plain :: later.text, later.openers.tail⟩ := by
      cases region with
      | string escaped => exact absurd rfl (outside escaped)
      | code | comment => cases b <;> rfl
    rw [styled]
    refine ⟨_, rfl, ?_⟩
    rw [Layers.drawn, List.append_nil]
    rfl

theorem step?_meeting {outer : Layers} {top : Bracket} {place : Nat} {text : List Char}
    (b : Bracket) :
    ((Layers.above outer top place text).drawing region position).step? (behindCursor cursor)
        b.closer =
      let styles := meetingStyles cursor (top, place) (b, position)
      some ((outer.append (styles.1.paint top.opener ++ (text ++ styles.2.paint b.closer))).drawing
        .code (position + b.closer.utf8Size)) := by
  have chosen : ((Layers.above outer top place text).drawing region position).step?
        (behindCursor cursor) b.closer =
      let inside : Drawing :=
        ⟨region, outer.opened, position, (Layers.above outer top place text).drawn []⟩
      let opening : OpenBracket := ⟨top, place, byteLength (outer.drawn [])⟩
      if top ≠ b then (inside.add .code .wrongCloser b.closer).redraw? opening .wrongOpener
      else if behindCursor cursor = some place || behindCursor cursor = some position then
        (inside.add .code .pairCloser b.closer).redraw? opening .pairOpener
      else some (inside.add .code .plain b.closer) := by
    cases region with
    | string escaped => exact absurd rfl (outside escaped)
    | code | comment => cases b <;> rfl
  rw [chosen, meetingStyles]
  simp only [Bool.or_eq_true, decide_eq_true_eq, behindCursor_eq_some]
  split_ifs
  · exact Layers.redraw?_innermost _ _ _ _
  · exact Layers.redraw?_innermost _ _ _ _
  · -- Here the bracket is left as it was drawn.
    simp [Drawing.add, Layers.drawing, Layers.drawn]

theorem Proceeds.meeting {outer : Layers} {top : Bracket} {place : Nat} {text : List Char}
    (b : Bracket) : Proceeds cursor (.above outer top place text) region position b.closer := by
  refine ⟨_, .code, step?_meeting outside b, fun rest => ?_⟩
  have styled : stylesFrom cursor region ((top, place) :: outer.brackets) position
      (b.closer :: rest) =
        let later := stylesFrom cursor .code outer.brackets (position + b.closer.utf8Size) rest
        let styles := meetingStyles cursor (top, place) (b, position)
        ⟨styles.2 :: later.text, styles.1 :: later.openers⟩ := by
    cases region with
    | string escaped => exact absurd rfl (outside escaped)
    | code | comment => cases b <;> rfl
  simp only [Layers.brackets, styled, Layers.brackets_append, Layers.drawn_append, Layers.drawn,
    List.headD_cons, List.tail_cons, List.append_assoc]
  exact ⟨_, rfl, rfl⟩

theorem Proceeds.closing (b : Bracket) : Proceeds cursor layers region position b.closer := by
  cases layers with
  | ground text =>
      cases region with
      | string escaped => exact absurd rfl (outside escaped)
      | code | comment => cases b <;> exact .apart rfl fun rest => rfl
  | above outer top place text => exact .meeting outside b

theorem Proceeds.ordinary (noQuote : c ≠ '"') (noOpener : Bracket.ofOpener? c = none)
    (noCloser : Bracket.ofCloser? c = none) : Proceeds cursor layers region position c := by
  cases region with
  | string escaped => exact absurd rfl (outside escaped)
  | code | comment =>
      have drawn : ∀ d : Drawing, (∀ escaped, d.region ≠ .string escaped) →
          d.step? (behindCursor cursor) c = some (d.add .code .plain c) := by
        rintro ⟨_ | _ | escaped, opened, place, text⟩ notString
        · simp [Drawing.step?, noQuote, noOpener, noCloser]
        · simp [Drawing.step?, noQuote, noOpener, noCloser]
        · exact absurd rfl (notString escaped)
      refine .apart (drawn _ outside) fun rest => ?_
      simp [stylesFrom, noQuote, noOpener, noCloser]

end Outside

theorem proceeds (cursor : Nat) (layers : Layers) (region : Region) (position : Nat)
    (c : Char) : Proceeds cursor layers region position c := by
  by_cases inString : ∃ escaped, region = .string escaped
  · obtain ⟨escaped, rfl⟩ := inString
    cases escaped <;> exact .apart rfl fun rest => rfl
  · have outside : ∀ escaped, region ≠ .string escaped := fun escaped same =>
      inString ⟨escaped, same⟩
    by_cases quote : c = '"'
    · subst quote
      cases region with
      | string escaped => exact absurd rfl (outside escaped)
      | code | comment => exact .apart rfl fun rest => rfl
    · cases opens : Bracket.ofOpener? c with
      | some b =>
          obtain rfl := Bracket.opener_of_ofOpener? opens
          exact .opening outside b
      | none =>
          cases closes : Bracket.ofCloser? c with
          | some b =>
              obtain rfl := Bracket.closer_of_ofCloser? closes
              exact .closing outside b
          | none => exact .ordinary outside quote opens closes

theorem foldlM_layers (cursor : Nat) (layers : Layers) (region : Region) (position : Nat)
    (text : List Char) :
    ∃ (last : Layers) (region' : Region),
      text.foldlM (Drawing.step? (behindCursor cursor)) (layers.drawing region position) =
        some (last.drawing region' (position + byteLength text)) ∧
      (stylesFrom cursor region layers.brackets position text).text.length = text.length ∧
      last.drawn [] =
        layers.drawn (stylesFrom cursor region layers.brackets position text).openers ++
          painted (stylesFrom cursor region layers.brackets position text).text text := by
  -- The styles of the open brackets are those that the whole rest gives, so a step only hands them on.
  induction text generalizing layers region position with
  | nil =>
      refine ⟨layers, region, rfl, rfl, ?_⟩
      simp only [stylesFrom, Layers.drawn_plain, painted, List.zipWith_nil_left, List.flatten_nil,
        List.append_nil]
  | cons c rest ih =>
      obtain ⟨next, between, stepped, agrees⟩ := proceeds cursor layers region position c
      obtain ⟨last, region', ended, length, drawn⟩ := ih next between (position + c.utf8Size)
      obtain ⟨style, styled, before⟩ := agrees rest
      refine ⟨last, region', ?_, ?_, ?_⟩
      · rw [List.foldlM_cons, stepped, byteLength, ← Nat.add_assoc]
        exact ended
      · rw [styled, List.length_cons, length, List.length_cons]
      · rw [drawn, before, styled, painted, painted, List.zipWith_cons_cons, List.flatten_cons,
          paint_eq_coloured, List.append_assoc]

/-! ## Without escape sequences -/

/-- A drawing without the escape sequences for the styles of its characters. -/
def unpainted : List Style → List Char → List Char
  | [], drawn => drawn
  | style :: styles, drawn =>
    match drawn.drop (startSequence style).length with
    | [] => []
    | c :: rest => c :: unpainted styles (rest.drop (resetSequence style).length)

theorem unpainted_painted {styles : List Style} {text : List Char}
    (length : styles.length = text.length) : unpainted styles (painted styles text) = text := by
  induction text generalizing styles with
  | nil =>
      rw [List.length_eq_zero_iff.mp length]
      rfl
  | cons c rest ih =>
      cases styles with
      | nil => cases length
      | cons style styles =>
          rw [painted, List.zipWith_cons_cons, List.flatten_cons, coloured, List.append_assoc,
            unpainted, List.drop_left]
          simp only [List.cons_append, List.drop_left]
          exact congrArg _ (ih (Nat.succ.inj length))

/-- A text without its escape sequences; `inside` when it starts within one. -/
def withoutCodes (inside : Bool) : List Char → List Char
  | [] => []
  | c :: rest =>
    if inside then withoutCodes (c ≠ 'm') rest
    else if c = '\x1b' then withoutCodes true rest
    else c :: withoutCodes false rest

theorem withoutCodes_startSequence (style : Style) (rest : List Char) :
    withoutCodes false (startSequence style ++ rest) = withoutCodes false rest := by
  cases style <;> rfl

theorem withoutCodes_resetSequence (style : Style) (rest : List Char) :
    withoutCodes false (resetSequence style ++ rest) = withoutCodes false rest := by
  cases style <;> rfl

theorem withoutCodes_coloured {c : Char} (noCode : c ≠ '\x1b') (style : Style)
    (rest : List Char) :
    withoutCodes false (coloured style c ++ rest) = c :: withoutCodes false rest := by
  rw [coloured, List.append_assoc, List.cons_append, withoutCodes_startSequence, withoutCodes,
    if_neg Bool.false_ne_true, if_neg noCode, withoutCodes_resetSequence]

theorem withoutCodes_painted {styles : List Style} {text : List Char}
    (length : styles.length = text.length) (noCode : '\x1b' ∉ text) :
    withoutCodes false (painted styles text) = text := by
  induction text generalizing styles with
  | nil =>
      rw [List.length_eq_zero_iff.mp length]
      rfl
  | cons c rest ih =>
      cases styles with
      | nil => cases length
      | cons style styles =>
          obtain ⟨first, others⟩ := not_or.mp (mt List.mem_cons.mpr noCode)
          rw [painted, List.zipWith_cons_cons, List.flatten_cons,
            withoutCodes_coloured (Ne.symm first)]
          exact congrArg _ (ih (Nat.succ.inj length) others)

/-! ## Lines -/

/-- While a line is drawn, every bracket that is still open stands in the drawing at the one byte at
which it was recorded. In the end each character of the line has been drawn once, between the escape
sequences for the style that the line gives to it, and nothing else has; so without those sequences
it is the line again. Where the line has none of its own, they are found without the styles as
well. -/
theorem highlight_painted (line : String) (position : Nat) :
    (∀ front, ∃ d, draw? (behindCursor position) front = some d ∧
      ∀ o ∈ d.opened, o.bracket.opener.utf8Size = 1 ∧
        ∃ before after, d.drawn = before ++ o.bracket.opener :: after ∧
          byteLength before = o.drawnAt) ∧
    (lineStyles line position).length = line.toList.length ∧
    (highlight line position).toList = painted (lineStyles line position) line.toList ∧
    unpainted (lineStyles line position) (highlight line position).toList = line.toList ∧
    ('\x1b' ∉ line.toList →
      withoutCodes false (highlight line position).toList = line.toList) := by
  obtain ⟨last, region, ended, length, drawn⟩ :=
    foldlM_layers position (.ground []) .code 0 line.toList
  have whole : (highlight line position).toList =
      painted (lineStyles line position) line.toList := by
    have drawing : draw? (behindCursor position) line.toList = _ := ended
    rw [highlight, drawing, String.toList_ofList]
    exact drawn
  refine ⟨fun front => ?_, length, whole, ?_, fun noCode => ?_⟩
  · obtain ⟨layers, between, reached, -, -⟩ :=
      foldlM_layers position (.ground []) .code 0 front
    exact ⟨_, reached, fun o mem => ⟨utf8Size_opener _, layers.found mem⟩⟩
  · rw [whole]
    exact unpainted_painted length
  · rw [whole]
    exact withoutCodes_painted length noCode

/-- A pair around a letter of two bytes, a bracket of the wrong kind, and brackets in a string that
does not end. -/
private def crossedLine : String := "(é) [a) ] \"(\\\""

theorem highlight_painted_crossed :
    '\x1b' ∉ crossedLine.toList ∧
      lineStyles crossedLine 4 = [.pairOpener, .plain, .pairCloser, .plain, .wrongOpener, .plain,
        .wrongCloser, .plain, .wrongCloser, .plain, .string, .string, .string, .string] ∧
      (highlight crossedLine 4).toList =
        "\x1b[1;34m(\x1b[0mé\x1b[34m)\x1b[0m ".toList ++
        "\x1b[1;31m[\x1b[0ma\x1b[31m)\x1b[0m \x1b[31m]\x1b[0m ".toList ++
        "\x1b[32m\"\x1b[0m\x1b[32m(\x1b[0m\x1b[32m\\\x1b[0m\x1b[32m\"\x1b[0m".toList ∧
      withoutCodes false (highlight crossedLine 4).toList = crossedLine.toList := by
  have noCode : '\x1b' ∉ crossedLine.toList := by decide
  obtain ⟨-, -, drawn, -, uncoded⟩ := highlight_painted crossedLine 4
  exact ⟨noCode, by decide, drawn.trans (by decide), uncoded noCode⟩

end Lisp.Repl
