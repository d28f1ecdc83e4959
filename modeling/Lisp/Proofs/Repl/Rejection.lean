import Lisp.Proofs.Program
import Lisp.Proofs.Repl.Backspace
import Lisp.Proofs.Repl.Regions
import Lisp.Proofs.Store.Caller
import Lisp.Proofs.Store.Streams
import Lisp.Repl.Session

/-! An entry that has been rejected stays rejected, whatever is typed after it, and the session in
which this happened evaluates nothing more. -/

set_option autoImplicit false

namespace Lisp.Repl

/-! ## Verdicts -/

variable {region : Region} {opened : List Bracket} {closer : Char} {position place : Nat}

theorem judgeFrom_nil_ne_invalid : judgeFrom region opened place [] ≠ .invalid closer position := by
  cases region with
  | string escaped => exact nofun
  | code | comment =>
      cases opened <;> exact nofun

/-- The character at the front of a text either is rejected or settles how the rest is judged. -/
theorem judgeFrom_cons_cases (region : Region) (opened : List Bracket) (place : Nat) (c : Char) :
    (∀ rest, judgeFrom region opened place (c :: rest) = .invalid c place) ∨
      ∃ region' opened' place', ∀ rest, judgeFrom region opened place (c :: rest) =
        judgeFrom region' opened' place' rest := by
  by_cases quiet : region = .code → Bracketless c
  · exact .inr ⟨_, _, _, judgeFrom_next quiet opened place⟩
  · obtain ⟨rfl, bracketed⟩ := Classical.not_imp.mp quiet
    cases opens : Bracket.ofOpener? c with
    | some bracket =>
        obtain rfl := Bracket.opener_of_ofOpener? opens
        exact .inr ⟨_, _, _, judgeFrom_opener bracket opened place⟩
    | none =>
        cases closes : Bracket.ofCloser? c with
        | none => exact absurd ⟨opens, closes⟩ bracketed
        | some bracket =>
            obtain rfl := Bracket.closer_of_ofCloser? closes
            cases opened with
            | nil => exact .inl fun rest => judgeFrom_closer bracket [] place rest
            | cons top outer =>
                by_cases matched : top = bracket
                · refine .inr ⟨.code, outer, place + bracket.closer.utf8Size, fun rest => ?_⟩
                  rw [judgeFrom_closer]
                  exact if_pos matched
                · refine .inl fun rest => ?_
                  rw [judgeFrom_closer]
                  exact if_neg matched

theorem judgeFrom_append {front : List Char}
    (rejected : judgeFrom region opened place front = .invalid closer position)
    (rest : List Char) :
    judgeFrom region opened place (front ++ rest) = .invalid closer position := by
  induction front generalizing region opened place with
  | nil => exact absurd rejected judgeFrom_nil_ne_invalid
  | cons c front ih =>
      rcases judgeFrom_cons_cases region opened place c with
        refused | ⟨region', opened', place', onward⟩
      · rw [refused] at rejected
        rw [List.cons_append, refused, rejected]
      · rw [onward] at rejected
        rw [List.cons_append, onward, ih rejected]

/-- What follows a rejected text decides nothing: the verdict on the whole is that on the text. -/
theorem judge_append {front : List Char} (rejected : judge front = .invalid closer position)
    (rest : List Char) : judge (front ++ rest) = .invalid closer position :=
  judgeFrom_append rejected rest

theorem judgeFrom_of_bracketless {terminator : List Char} (quiet : ∀ c ∈ terminator, Bracketless c) :
    judgeFrom region opened place terminator ≠ .invalid closer position := by
  induction terminator generalizing region place with
  | nil => exact judgeFrom_nil_ne_invalid
  | cons c rest ih =>
      obtain ⟨first, others⟩ := List.forall_mem_cons.mp quiet
      rw [judgeFrom_next fun _ => first]
      exact ih others

/-- Without brackets at its end, a rejected text is rejected for what stands before them. -/
theorem judgeFrom_of_append {front terminator : List Char}
    (quiet : ∀ c ∈ terminator, Bracketless c)
    (rejected : judgeFrom region opened place (front ++ terminator) = .invalid closer position) :
    judgeFrom region opened place front = .invalid closer position := by
  induction front generalizing region opened place with
  | nil => exact absurd rejected (judgeFrom_of_bracketless quiet)
  | cons c front ih =>
      rcases judgeFrom_cons_cases region opened place c with
        refused | ⟨region', opened', place', onward⟩
      · rw [List.cons_append, refused] at rejected
        rw [refused, rejected]
      · rw [List.cons_append, onward] at rejected
        rw [onward, ih rejected]

/-! ## Reading -/

theorem chars_of_mapM {items : List Text.Item} {cs : List Char}
    (text : items.mapM Text.Item.char? = some cs) : items = cs.map .char := by
  induction items generalizing cs with
  | nil =>
      cases text
      rfl
  | cons item rest ih =>
      rw [List.mapM_cons] at text
      obtain ⟨c, first, others⟩ := Option.bind_eq_some_iff.mp text
      obtain ⟨more, later, shape⟩ := Option.bind_eq_some_iff.mp others
      cases shape
      cases item with
      | char own =>
          cases first
          rw [List.map_cons, ← ih later]
      | stray byte => cases first

theorem stray_of_mapM {items : List Text.Item} (noText : items.mapM Text.Item.char? = none) :
    ∃ item ∈ items, item.char? = none := by
  induction items with
  | nil => cases noText
  | cons item rest ih =>
      cases first : item.char? with
      | none => exact ⟨item, List.mem_cons_self, first⟩
      | some c =>
          cases others : rest.mapM Text.Item.char? with
          | none =>
              obtain ⟨stray, mem, noChar⟩ := ih others
              exact ⟨stray, List.mem_cons_of_mem _ mem, noChar⟩
          | some cs => simp [first, others] at noText

theorem splitTerminator_append (cs : List Char) :
    (Session.splitTerminator cs).1 ++ (Session.splitTerminator cs).2 = cs := by
  rw [Session.splitTerminator.eq_def]
  split
  · next rest shape =>
      rw [← List.reverse_reverse cs, shape]
      simp
  · next rest _ shape =>
      rw [← List.reverse_reverse cs, shape]
      simp
  · exact List.append_nil cs

theorem bracketless_terminator (cs : List Char) :
    ∀ c ∈ (Session.splitTerminator cs).2, Bracketless c := by
  have feed : Bracketless '\n' := ⟨rfl, rfl⟩
  have ret : Bracketless '\r' := ⟨rfl, rfl⟩
  rw [Session.splitTerminator.eq_def]
  split
  · simp [feed, ret]
  · simp [feed]
  · nofun

/-! ## Turns -/

namespace Session

/-- The session after it has taken a line off its input. -/
def reading (s : Session) : Session :=
  { s with store := s.store.modifyConsole 0 fun c =>
      { c with input := (Text.splitLine s.input).2 } }

/-- The text that is judged when a line has been added to what is unfinished. -/
def bufferWith (s : Session) (line : List Char) : List Char :=
  applyBackspaces (splitTerminator (s.unfinished ++ line)).1

variable {s t : Session} {fuel : Nat}

theorem turn_noInput (ended : s.input = []) : s.turn fuel = some (.over (s.say farewell)) := by
  simp only [turn, ended]

theorem turn_noText (more : s.input ≠ [])
    (noText : (Text.splitLine s.input).1.mapM Text.Item.char? = none) :
    s.turn fuel = some (.over (s.reading.note (.text malformedInput))) := by
  rw [turn]
  split
  · next ended => exact absurd ended more
  · simp only [noText]
    rfl

theorem turn_text (more : s.input ≠ []) {line : List Char}
    (text : (Text.splitLine s.input).1.mapM Text.Item.char? = some line) :
    s.turn fuel = match judge (s.bufferWith line) with
      | .valid => { s.reading with unfinished := [] }.handleEntry fuel (s.bufferWith line)
      | .incomplete => some (.running { s.reading with
          unfinished := s.bufferWith line ++ (splitTerminator (s.unfinished ++ line)).2 })
      | .invalid closer position => some (.running ({ s.reading with
          unfinished := s.bufferWith line }.note (.text (unmatchedMessage closer position)))) := by
  rw [turn]
  split
  · next ended => exact absurd ended more
  · simp only [text]
    rfl

theorem console_of_input (more : s.input ≠ []) :
    s.inputTaken = false ∧
      ∃ console, s.store.consoles[s.store.consoleOf 0]? = some console ∧ s.input = console.input := by
  rw [input] at more ⊢
  split_ifs at more ⊢ with taken
  · exact absurd rfl more
  · refine ⟨by simpa using taken, ?_⟩
    rw [Store.console] at more ⊢
    split at more
    · next console present => exact ⟨console, present, rfl⟩
    · exact absurd rfl more

theorem input_reading (more : s.input ≠ []) : s.reading.input = (Text.splitLine s.input).2 := by
  obtain ⟨untaken, console, present, -⟩ := console_of_input more
  have found : s.reading.store.consoles[s.reading.store.consoleOf 0]? =
      some { console with input := (Text.splitLine s.input).2 } := by
    have same : s.reading.store.consoleOf 0 = s.store.consoleOf 0 := rfl
    rw [same]
    simp [reading, Store.modifyConsole, Array.getElem?_modify, present]
  rw [input, if_neg (by simp [reading, untaken]), Store.console, found]

theorem length_input_reading (more : s.input ≠ []) :
    s.reading.input.length < s.input.length := by
  rw [input_reading more]
  exact Text.splitLine_progress more

theorem output_reading (s : Session) :
    (s.reading.store.console 0).output = (s.store.console 0).output := by
  have same : s.reading.store.consoleOf 0 = s.store.consoleOf 0 := rfl
  rw [Store.console, Store.console, same]
  cases present : s.store.consoles[s.store.consoleOf 0]? <;>
    simp [reading, Store.modifyConsole, Array.getElem?_modify, present]

theorem buffers_say_reading (s : Session) (text : String) :
    (s.reading.say text).store.buffers = (s.say text).store.buffers := by
  simp only [say, Store.writeOutput, output_reading]
  cases (s.store.console 0).output <;> rfl

/-! ## What entries leave of the input -/

theorem evaluatesAll_kept {budget : Nat} {f : FrameId} {forms values : List Value}
    {before after : Store} (evaluated : EvaluatesAll budget f forms before values after) :
    before.KeepsFrames after ∧ before.Streams after := by
  induction evaluated with
  | nil store => exact ⟨.refl store, .refl store⟩
  | cons first _ ih =>
      obtain ⟨_, finished⟩ := first
      have keeps := Store.respected_keepsFrames.evaluateWithin finished
      have streams := Store.streams_of_evaluateWithin finished
      exact ⟨keeps.trans ih.1, streams.trans ih.2⟩

theorem runText_kept {source : String} {f : FrameId} {before after : Store}
    {outcome : Except ParseError Value}
    (ended : runText fuel source f before = some (outcome, after)) :
    before.KeepsFrames after ∧ before.Streams after := by
  rw [runText_eq] at ended
  obtain ⟨⟨value, final⟩, ran, shown⟩ := Option.map_eq_some_iff.mp ended
  cases shown
  obtain ⟨values, evaluated, -⟩ := runForms_iff.mp ⟨fuel, ran⟩
  exact evaluatesAll_kept evaluated

theorem printResult_consoles (value : Value) (f : FrameId) (store : Store) :
    (printResult value f store).2.consoles = store.consoles := by
  rw [printResult]
  split <;> exact Store.write_consoles store _ _

theorem printResult_frames (value : Value) (f : FrameId) (store : Store) :
    (printResult value f store).2.frames = store.frames := by
  rw [printResult]
  split <;> exact Store.write_frames store _ _

/-- Showing the value or the error of an entry changes neither frames nor inputs. -/
theorem evaluateEntry_cases {entry : String} (ended : s.evaluateEntry fuel entry = some t) :
    ∃ result store, runText fuel entry 0 s.store = some (result, store) ∧
      t.store.frames = store.frames ∧ t.store.consoles = store.consoles ∧
      t.inputTaken = (s.inputTaken ||
        decide ((store.console 0).input.length < (s.store.console 0).input.length)) := by
  rw [evaluateEntry] at ended
  dsimp only at ended
  split at ended
  · cases ended
  · next result store ran =>
      refine ⟨result, store, ran, ?_⟩
      cases result with
      | error cause =>
          cases ended
          exact ⟨rfl, rfl, rfl⟩
      | ok value =>
          have frames := printResult_frames value 0 store
          have consoles := printResult_consoles value 0 store
          rcases shown : printResult value 0 store with ⟨_ | failure, after⟩
          · rw [shown] at frames consoles
            simp only [shown] at ended
            cases ended
            exact ⟨frames, consoles, rfl⟩
          · rw [shown] at frames consoles
            simp only [shown] at ended
            cases ended
            exact ⟨frames, consoles, rfl⟩

theorem suffix_input_evaluateEntry {entry : String} (present : 0 < s.store.frames.size)
    (ended : s.evaluateEntry fuel entry = some t) :
    0 < t.store.frames.size ∧ t.input <:+ s.input := by
  obtain ⟨result, store, ran, frames, consoles, taken⟩ := evaluateEntry_cases ended
  obtain ⟨keeps, streams⟩ := runText_kept ran
  have shown : t.store.console 0 = store.console 0 := by
    simp only [Store.console, Store.consoleOf, frames, consoles]
  refine ⟨by rw [frames]; exact keeps.lt_size present, ?_⟩
  rw [input, input, taken, shown]
  cases s.inputTaken with
  | true => exact List.suffix_refl []
  | false =>
      obtain ⟨lines, whole, -⟩ := streams.linesTaken_console (keeps.consoleOf_eq present)
      split
      · exact List.nil_suffix
      · exact ⟨lines, whole.symm⟩

theorem suffix_input_handleEntry {entry : List Char} (present : 0 < s.store.frames.size)
    (ended : s.handleEntry fuel entry = some (.running t)) :
    0 < t.store.frames.size ∧ t.input <:+ s.input := by
  rw [handleEntry] at ended
  split at ended
  · cases ended
    exact ⟨present, List.suffix_refl _⟩
  · split at ended
    · cases ended
    · obtain ⟨after, evaluated, running⟩ := Option.map_eq_some_iff.mp ended
      cases running
      exact suffix_input_evaluateEntry present evaluated

/-! ## Histories -/

/-- One turn, after which the session goes on. -/
def GoesOn (fuel : Nat) (s t : Session) : Prop :=
  s.turn fuel = some (.running t)

/-- A turn takes a line off the input, and programs may take more. -/
theorem GoesOn.shorter (goes : GoesOn fuel s t) (present : 0 < s.store.frames.size) :
    0 < t.store.frames.size ∧ t.input.length < s.input.length := by
  rw [GoesOn] at goes
  by_cases ended : s.input = []
  · rw [turn_noInput ended] at goes
    cases goes
  cases text : (Text.splitLine s.input).1.mapM Text.Item.char? with
  | none =>
      rw [turn_noText ended text] at goes
      cases goes
  | some line =>
      have shorter := length_input_reading ended
      rw [turn_text ended text] at goes
      split at goes
      · obtain ⟨presentAfter, suffix⟩ :=
          @suffix_input_handleEntry { s.reading with unfinished := [] } _ _ _ present goes
        exact ⟨presentAfter, suffix.length_le.trans_lt shorter⟩
      · cases goes
        exact ⟨present, shorter⟩
      · cases goes
        exact ⟨present, shorter⟩

theorem converse_of_history (present : 0 < s.store.frames.size)
    (history : Relation.ReflTransGen (GoesOn fuel) s t) :
    0 < t.store.frames.size ∧ ∃ count, count + t.input.length ≤ s.input.length ∧
      ∀ turns, s.converse fuel (count + turns) = t.converse fuel turns := by
  induction history with
  | refl => exact ⟨present, 0, by omega, fun turns => by rw [Nat.zero_add]⟩
  | tail _ last ih =>
      obtain ⟨between, count, bounded, converses⟩ := ih
      obtain ⟨after, shorter⟩ := last.shorter between
      refine ⟨after, count + 1, by omega, fun turns => ?_⟩
      rw [Nat.add_assoc, Nat.add_comm 1, converses, converse, last]

/-- Given enough turns, the session comes to its end, however long evaluations may take. -/
def EndsAt (s final : Session) : Prop :=
  ∀ fuel turns, s.input.length < turns → s.converse fuel turns = some final

theorem EndsAt.of_over {final : Session} (last : ∀ fuel, s.turn fuel = some (.over final)) :
    s.EndsAt final := by
  intro fuel turns enough
  obtain ⟨rest, rfl⟩ := Nat.exists_eq_add_one_of_ne_zero (Nat.ne_zero_of_lt enough)
  rw [converse, last]

theorem EndsAt.of_goesOn {final : Session} (goes : ∀ fuel, GoesOn fuel s t)
    (shorter : t.input.length < s.input.length) (ends : t.EndsAt final) : s.EndsAt final := by
  intro fuel turns enough
  obtain ⟨rest, rfl⟩ := Nat.exists_eq_add_one_of_ne_zero (Nat.ne_zero_of_lt enough)
  rw [converse, goes fuel]
  exact ends fuel rest (by omega)

theorem input_start (hasHistory : Bool) (input : List Text.Item) :
    (start hasHistory input).input = input := by
  cases hasHistory <;> rfl

theorem present_start (hasHistory : Bool) (input : List Text.Item) :
    0 < (start hasHistory input).store.frames.size := by
  cases hasHistory <;> exact Nat.one_pos

/-! ## Rejected entries -/

def complaint (closer : Char) (position : Nat) : Notice :=
  .text (unmatchedMessage closer position)

/-- The session after a line has been added to a rejected entry. -/
def complaining (s : Session) (line : List Char) (closer : Char) (position : Nat) : Session :=
  { s.reading with unfinished := s.bufferWith line }.note (complaint closer position)

/-- In its next turn the session reads a line and rejects the entry that it then has. -/
def Rejects (s : Session) (closer : Char) (position : Nat) : Prop :=
  s.input ≠ [] ∧ ∃ line, (Text.splitLine s.input).1.mapM Text.Item.char? = some line ∧
    judge (s.bufferWith line) = .invalid closer position

/-- The entry that the session keeps has been rejected, and no backspace is there or to come, so what
is typed next is appended to it. -/
structure Rejected (s : Session) (closer : Char) (position : Nat) : Prop where
  judged : judge s.unfinished = .invalid closer position
  kept : backspace ∉ s.unfinished
  coming : .char backspace ∉ s.input

variable {closer : Char} {position : Nat}

theorem Rejects.complains (rejects : s.Rejects closer position)
    (coming : .char backspace ∉ (Text.splitLine s.input).2) :
    ∃ line, (∀ fuel, GoesOn fuel s (s.complaining line closer position)) ∧
      (s.complaining line closer position).Rejected closer position := by
  obtain ⟨more, line, text, judged⟩ := rejects
  rw [← input_reading more] at coming
  refine ⟨line, fun fuel => ?_, judged, backspace_notMem_applyBackspaces _, coming⟩
  rw [GoesOn, turn_text more text, judged]
  rfl

theorem Rejected.bufferWith_eq (rejected : s.Rejected closer position) {line : List Char}
    (text : (Text.splitLine s.input).1.mapM Text.Item.char? = some line) :
    s.bufferWith line = (splitTerminator (s.unfinished ++ line)).1 := by
  have typed : backspace ∉ line := by
    intro mem
    have inLine : .char backspace ∈ (Text.splitLine s.input).1 := by
      rw [chars_of_mapM text]
      exact List.mem_map_of_mem mem
    have whole := List.mem_append_left (Text.splitLine s.input).2 inLine
    rw [Text.splitLine_append] at whole
    exact rejected.coming whole
  have whole : backspace ∉ s.unfinished ++ line := by simp [rejected.kept, typed]
  rw [← splitTerminator_append (s.unfinished ++ line)] at whole
  exact applyBackspaces_of_notMem _ fun mem => whole (List.mem_append_left _ mem)

/-- Another line is added to the entry, which is rejected for the same reason. -/
theorem Rejected.rejects (rejected : s.Rejected closer position) (more : s.input ≠ [])
    {line : List Char} (text : (Text.splitLine s.input).1.mapM Text.Item.char? = some line) :
    s.Rejects closer position := by
  refine ⟨more, line, text, ?_⟩
  have whole := judge_append rejected.judged line
  rw [← splitTerminator_append (s.unfinished ++ line), ← rejected.bufferWith_eq text] at whole
  exact judgeFrom_of_append (bracketless_terminator _) whole

theorem Rejected.coming_rest (rejected : s.Rejected closer position) :
    .char backspace ∉ (Text.splitLine s.input).2 := by
  have coming := rejected.coming
  rw [← Text.splitLine_append s.input] at coming
  exact fun mem => coming (List.mem_append_right _ mem)

/-- The session has ended without evaluating anything since the other one. It has said so, or its
input broke off at a line that is no text; besides, only complaints have been added. -/
structure EndsIdle (complaint : Notice) (s final : Session) : Prop where
  frames : final.store.frames = s.store.frames
  closing : ∃ count, let notices := List.replicate count complaint ++ s.notices
    (final.store.buffers = (s.say farewell).store.buffers ∧ final.notices = notices) ∨
      ((∃ item ∈ s.input, item.char? = none) ∧ final.store.buffers = s.store.buffers ∧
        final.notices = .text malformedInput :: notices)

theorem EndsIdle.of_complaining {final : Session} {line : List Char} (more : s.input ≠ [])
    (idle : (s.complaining line closer position).EndsIdle (complaint closer position) final) :
    s.EndsIdle (complaint closer position) final := by
  obtain ⟨frames, count, ending⟩ := idle
  have earlier : ∀ item ∈ s.reading.input, item ∈ s.input := by
    rw [input_reading more]
    intro item mem
    rw [← Text.splitLine_append s.input]
    exact List.mem_append_right _ mem
  refine ⟨frames, count + 1, ?_⟩
  rw [List.replicate_succ', List.append_assoc]
  rcases ending with ⟨buffers, notices⟩ | ⟨⟨item, mem, stray⟩, buffers, notices⟩
  · exact .inl ⟨buffers.trans (buffers_say_reading s farewell), notices⟩
  · exact .inr ⟨⟨item, earlier item mem, stray⟩, buffers, notices⟩

theorem Rejected.ends (rejected : s.Rejected closer position) :
    ∃ final, s.EndsAt final ∧ s.EndsIdle (complaint closer position) final := by
  induction size : s.input.length using Nat.strong_induction_on generalizing s with
  | _ size ih =>
    subst size
    by_cases ended : s.input = []
    · refine ⟨s.say farewell, .of_over fun fuel => turn_noInput ended, ?_, 0, .inl ⟨rfl, rfl⟩⟩
      exact Store.writeOutput_frames s.store 0 farewell
    · cases text : (Text.splitLine s.input).1.mapM Text.Item.char? with
      | none =>
          obtain ⟨item, mem, stray⟩ := stray_of_mapM text
          have present : item ∈ s.input := by
            rw [← Text.splitLine_append s.input]
            exact List.mem_append_left _ mem
          exact ⟨s.reading.note (.text malformedInput), .of_over fun fuel => turn_noText ended text,
            rfl, 0, .inr ⟨⟨item, present, stray⟩, rfl, rfl⟩⟩
      | some line =>
          have rejects := rejected.rejects ended text
          obtain ⟨line, goes, later⟩ := rejects.complains rejected.coming_rest
          have shorter := length_input_reading ended
          obtain ⟨final, ends, idle⟩ := ih _ shorter later rfl
          exact ⟨final, ends.of_goesOn goes shorter, idle.of_complaining ended⟩

end Session

open Session in
/-- A rejected text stays rejected with whatever comes after it. So once a session has rejected an
entry, and no backspaces are typed after it, it evaluates nothing more, up to the end of its input,
where it ends. -/
theorem rejection_final :
    (∀ closer position front rest, judge front = .invalid closer position →
      judge (front ++ rest) = .invalid closer position) ∧
    ∀ hasHistory input fuel closer position (s : Session),
      Relation.ReflTransGen (GoesOn fuel) (start hasHistory input) s →
      s.Rejects closer position → .char backspace ∉ (Text.splitLine s.input).2 →
      ∃ final, s.EndsIdle (complaint closer position) final ∧ s.EndsAt final ∧
        command fuel hasHistory input =
          some ⟨0, final.store.bufferText 0, final.notices.reverse⟩ := by
  refine ⟨fun _ _ _ rest rejected => judge_append rejected rest, ?_⟩
  intro hasHistory input fuel closer position s history rejects coming
  obtain ⟨-, count, bounded, converses⟩ :=
    converse_of_history (present_start hasHistory input) history
  rw [input_start] at bounded
  obtain ⟨line, goes, rejected⟩ := rejects.complains coming
  obtain ⟨final, ends, idle⟩ := rejected.ends
  have ended : s.EndsAt final := ends.of_goesOn goes (length_input_reading rejects.1)
  refine ⟨final, idle.of_complaining rejects.1, ended, ?_⟩
  obtain ⟨left, split⟩ : ∃ left, input.length + 1 = count + left :=
    Nat.exists_eq_add_of_le (by omega)
  rw [command, split, converses, ended fuel left (by omega)]
  rfl

/-- Where backspaces are typed, an entry need not begin with the one before it. -/
example : judge (applyBackspaces [')', backspace]) = .valid := by decide

/-- The first line takes back a letter, the second one has a bracket too many, and the third one
prints in vain. -/
private def rejectedInput : List Text.Item :=
  Text.items "(define xy\x08 'a)\n(print x))\n(print x)\n"

open Session in
theorem rejection_final_printing :
    judge "(print x))\n(print x)\n".toList = .invalid ')' 9 ∧
    ∃ s final, Relation.ReflTransGen (GoesOn 40) (start true rejectedInput) s ∧
      s.Rejects ')' 9 ∧ s.EndsIdle (complaint ')' 9) final ∧
      command 40 true rejectedInput =
        some ⟨0, final.store.bufferText 0, final.notices.reverse⟩ := by
  obtain ⟨verdicts, sessions⟩ := rejection_final
  obtain ⟨s, goes, more⟩ : ∃ s, GoesOn 40 (start true rejectedInput) s ∧
      s.input = Text.items "(print x))\n(print x)\n" ∧ s.unfinished = [] := ⟨_, rfl, rfl, rfl⟩
  obtain ⟨input, fresh⟩ := more
  have rejects : s.Rejects ')' 9 := by
    refine ⟨by rw [input]; exact List.cons_ne_nil _ _, "(print x))\n".toList, by rw [input]; rfl, ?_⟩
    rw [bufferWith, fresh]
    rfl
  have coming : .char backspace ∉ (Text.splitLine s.input).2 := by
    rw [input]
    decide
  obtain ⟨final, idle, -, ended⟩ := sessions true rejectedInput 40 ')' 9 s (.single goes) rejects coming
  have judged := verdicts ')' 9 "(print x))".toList "\n(print x)\n".toList rfl
  exact ⟨judged, s, final, .single goes, rejects, idle, ended⟩

end Lisp.Repl
