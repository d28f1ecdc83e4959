import Mathlib.Data.List.DropRight
import Lisp.Proofs.Store.Streams

/-! Reading a text to its end gives its lines, each without the carriage returns at its end. From a
line that itself ends with one, this takes too much. -/

set_option autoImplicit false

namespace Lisp

namespace Text

/-! ## The lines of a text -/

inductive LineEnd where
  | feed
  | returnFeed
  | missing
  deriving DecidableEq, Repr

def LineEnd.text : LineEnd → List Char
  | feed => ['\n']
  | returnFeed => ['\r', '\n']
  | missing => []

structure Line where
  content : List Char
  ending : LineEnd
  deriving DecidableEq, Repr

namespace Line

def text (l : Line) : List Char :=
  l.content ++ l.ending.text

/-- A line ends at its first line feed, and a carriage return before that belongs to its ending. -/
structure WellFormed (l : Line) : Prop where
  noFeed : '\n' ∉ l.content
  noReturn : l.ending = .feed → l.content.getLast? ≠ some '\r'
  nonempty : l.ending = .missing → l.content ≠ []

/-- What a read gives of a line. -/
def kept (l : Line) : List Char :=
  l.content.rdropWhile (· = '\r')

def rebuilt (l : Line) : List Char :=
  l.kept ++ l.ending.text

end Line

/-- The lines of a text, in order. Only the last one may lack its ending. -/
inductive Lines : List Char → List Line → Prop where
  | nil : Lines [] []
  | cons {line : Line} {rest : List Char} {lines : List Line} (wellFormed : line.WellFormed)
      (last : line.ending = .missing → rest = []) (others : Lines rest lines) :
      Lines (line.text ++ rest) (line :: lines)

namespace Line

variable {l m : Line}

theorem WellFormed.text_ne_nil (wellFormed : l.WellFormed) : l.text ≠ [] := by
  intro empty
  obtain ⟨none, noEnding⟩ := List.append_eq_nil_iff.mp empty
  cases ending : l.ending with
  | missing => exact wellFormed.nonempty ending none
  | feed | returnFeed => simp [ending, LineEnd.text] at noEnding

theorem WellFormed.eq_of_text_eq (wellFormed : l.WellFormed) (other : m.WellFormed)
    (same : l.text = m.text) : l = m := by
  obtain ⟨content, ending⟩ := l
  obtain ⟨content', ending'⟩ := m
  obtain ⟨noFeed, noReturn, -⟩ := wellFormed
  obtain ⟨noFeed', noReturn', -⟩ := other
  have shape : content ++ ending.text = content' ++ ending'.text := same
  have returned {short long : List Char} (unlike : short ++ ['\n'] = long ++ ['\r', '\n']) :
      short.getLast? = some '\r' := by
    have longer : short = long ++ ['\r'] :=
      List.append_cancel_right (unlike.trans (List.append_assoc long ['\r'] ['\n']).symm)
    rw [longer, List.getLast?_concat]
  cases ending <;> cases ending' <;> simp only [LineEnd.text, List.append_nil] at shape
  case feed.feed => rw [List.append_cancel_right shape]
  case returnFeed.returnFeed => rw [List.append_cancel_right shape]
  case missing.missing => rw [shape]
  case feed.returnFeed => exact absurd (returned shape) (noReturn rfl)
  case returnFeed.feed => exact absurd (returned shape.symm) (noReturn' rfl)
  case missing.feed | missing.returnFeed => exact absurd (by simp [shape]) noFeed
  case feed.missing | returnFeed.missing => exact absurd (by simp [← shape]) noFeed'

/-- The line that a text without line feeds makes up with a line feed after it. -/
theorem exists_text_eq_append_feed (front : List Char) (noFeed : '\n' ∉ front) :
    ∃ l : Line, l.WellFormed ∧ l.ending ≠ .missing ∧ l.text = front ++ ['\n'] := by
  by_cases returned : front.getLast? = some '\r'
  · obtain ⟨content, rfl⟩ := List.getLast?_eq_some_iff.mp returned
    have noFeed' : '\n' ∉ content := fun mem => noFeed (List.mem_append_left _ mem)
    exact ⟨⟨content, .returnFeed⟩, ⟨noFeed', nofun, nofun⟩, nofun, by simp [text, LineEnd.text]⟩
  · exact ⟨⟨front, .feed⟩, ⟨noFeed, fun _ => returned, nofun⟩, nofun, rfl⟩

theorem kept_prefix (l : Line) : l.kept <+: l.content :=
  List.rdropWhile_prefix _ _

theorem rebuilt_length (lines : List Line) :
    (lines.map rebuilt).flatten.length ≤ (lines.map text).flatten.length ∧
      ((lines.map rebuilt).flatten.length = (lines.map text).flatten.length →
        ∀ l ∈ lines, l.kept = l.content) := by
  induction lines with
  | nil => exact ⟨Nat.le_refl _, nofun⟩
  | cons l lines ih =>
      -- No line gets longer, so the sum of the lengths is kept only if each of them is.
      have first := l.kept_prefix.length_le
      simp only [List.map_cons, List.flatten_cons, rebuilt, text, List.length_append,
        List.forall_mem_cons] at ih ⊢
      exact ⟨by omega, fun same => ⟨l.kept_prefix.eq_of_length (by omega), ih.2 (by omega)⟩⟩

theorem exists_content_eq (l : Line) :
    ∃ returns, l.content = l.kept ++ List.replicate returns '\r' := by
  have all : ∀ c ∈ l.content.rtakeWhile (· = '\r'), c = '\r' := fun c mem => by
    simpa using List.mem_rtakeWhile_imp mem
  refine ⟨(l.content.rtakeWhile (· = '\r')).length, ?_⟩
  rw [← List.eq_replicate_of_mem all, kept]
  exact List.rdropWhile_append_rtakeWhile.symm

theorem kept_eq_content_iff (l : Line) : l.kept = l.content ↔ l.content.getLast? ≠ some '\r' := by
  rw [kept, List.rdropWhile_eq_self_iff]
  cases shape : l.content using List.reverseRecOn with
  | nil => simp
  | append_singleton front c => simp

end Line

theorem splitLine_append_of_notMem {front : List Char} (noFeed : '\n' ∉ front)
    (after : List Item) :
    splitLine (front.map .char ++ after) =
      (front.map .char ++ (splitLine after).1, (splitLine after).2) := by
  induction front with
  | nil => rfl
  | cons c front ih =>
      obtain ⟨notFeed, others⟩ := not_or.mp (mt List.mem_cons.mpr noFeed)
      have notFeed' : Item.char c = .char '\n' → False := fun same =>
        notFeed (Item.char.inj same).symm
      rw [List.map_cons, List.cons_append, splitLine.eq_3 _ _ notFeed', ih others]
      rfl

/-- The first line of a text is what a reader takes off it. -/
theorem splitLine_line {l : Line} {rest : List Char} (wellFormed : l.WellFormed)
    (last : l.ending = .missing → rest = []) :
    splitLine ((l.text ++ rest).map .char) = (l.text.map .char, rest.map .char) := by
  rw [Line.text, List.append_assoc, List.map_append, splitLine_append_of_notMem wellFormed.noFeed,
    List.map_append, List.map_append]
  cases ending : l.ending with
  | feed | returnFeed => rfl
  | missing =>
      rw [last ending]
      rfl

theorem ofItems?_chars (text : List Char) : ofItems? (text.map .char) = some (.ofList text) := by
  have all : (text.map Item.char).mapM Item.char? = some text := by
    induction text with
    | nil => rfl
    | cons c text ih =>
        rw [List.map_cons, List.mapM_cons, ih]
        rfl
  rw [ofItems?, all, Option.map_some]

namespace Lines

theorem joined {text : List Char} {lines : List Line} (divided : Lines text lines) :
    (lines.map Line.text).flatten = text := by
  induction divided with
  | nil => rfl
  | cons _ _ _ ih => rw [List.map_cons, List.flatten_cons, ih]

theorem rebuilt_iff {text : List Char} {lines : List Line} (divided : Lines text lines) :
    (lines.map Line.rebuilt).flatten = text ↔ ∀ l ∈ lines, l.kept = l.content := by
  refine ⟨fun rebuilt => (Line.rebuilt_length lines).2 ?_, fun whole => ?_⟩
  · rw [rebuilt, divided.joined]
  · have same : lines.map Line.rebuilt = lines.map Line.text :=
      List.map_congr_left fun l mem => by rw [Line.rebuilt, whole l mem, Line.text]
    rw [same, divided.joined]

theorem exists_lines (text : List Char) : ∃ lines, Lines text lines := by
  by_cases feed : '\n' ∈ text
  · obtain ⟨front, rest, whole, noFeed⟩ := List.eq_append_cons_of_mem feed
    have shorter : rest.length < text.length := by
      rw [whole, List.length_append, List.length_cons]
      omega
    obtain ⟨l, wellFormed, ended, shape⟩ := Line.exists_text_eq_append_feed front noFeed
    obtain ⟨lines, others⟩ := exists_lines rest
    have divided := cons wellFormed (fun missing => absurd missing ended) others
    rw [shape, List.append_assoc, List.singleton_append, ← whole] at divided
    exact ⟨_, divided⟩
  · by_cases empty : text = []
    · exact ⟨[], empty ▸ .nil⟩
    · have wellFormed : Line.WellFormed ⟨text, .missing⟩ := ⟨feed, nofun, fun _ => empty⟩
      have divided := cons wellFormed (fun _ => rfl) .nil
      rw [Line.text, LineEnd.text, List.append_nil, List.append_nil] at divided
      exact ⟨_, divided⟩
termination_by text.length

theorem unique {text : List Char} {lines others : List Line} (divided : Lines text lines)
    (again : Lines text others) : others = lines := by
  induction divided generalizing others with
  | nil =>
      generalize whole : ([] : List Char) = text at again
      cases again with
      | nil => rfl
      | cons wellFormed _ _ =>
          exact absurd (List.append_eq_nil_iff.mp whole.symm).1 wellFormed.text_ne_nil
  | @cons l rest lines wellFormed last _ ih =>
      generalize whole : l.text ++ rest = text at again
      cases again with
      | nil => exact absurd (List.append_eq_nil_iff.mp whole).1 wellFormed.text_ne_nil
      | @cons m rest' _ wellFormed' last' others' =>
          have split := splitLine_line wellFormed last
          rw [whole, splitLine_line wellFormed' last'] at split
          obtain ⟨sameText, sameRest⟩ := Prod.mk.inj split
          have injective : Function.Injective Item.char := fun _ _ => Item.char.inj
          obtain rfl := wellFormed'.eq_of_text_eq wellFormed (injective.list_map sameText)
          obtain rfl := injective.list_map sameRest
          rw [ih others']

end Lines

end Text

/-! ## Reads -/

namespace Console

theorem rdropWhile_feedless {text : List Char} (noFeed : '\n' ∉ text) :
    (text.rdropWhile fun c => c = '\n' || c = '\r') = text.rdropWhile (· = '\r') := by
  induction text using List.reverseRecOn with
  | nil => rfl
  | append_singleton front c ih =>
      have notFeed : c ≠ '\n' := fun same => noFeed (by simp [same])
      have front' : '\n' ∉ front := fun mem => noFeed (List.mem_append_left _ mem)
      simp only [List.rdropWhile_concat, ih front', notFeed, decide_false, Bool.false_or]

theorem trimLine_line {l : Text.Line} (noFeed : '\n' ∉ l.content) :
    trimLine (.ofList l.text) = .ofList l.kept := by
  have unended : (l.text.rdropWhile fun c => c = '\n' || c = '\r') =
      l.content.rdropWhile fun c => c = '\n' || c = '\r' := by
    rw [Text.Line.text]
    cases l.ending with
    | feed => exact List.rdropWhile_concat_pos _ _ _ rfl
    | returnFeed =>
        rw [Text.LineEnd.text, List.append_cons, List.rdropWhile_concat_pos _ _ _ rfl]
        exact List.rdropWhile_concat_pos _ _ _ rfl
    | missing => rw [Text.LineEnd.text, List.append_nil]
  rw [trimLine, String.toList_ofList, ← List.rdropWhile, unended, rdropWhile_feedless noFeed,
    Text.Line.kept]

theorem takeLine_line {l : Text.Line} {rest : List Char} (wellFormed : l.WellFormed)
    (last : l.ending = .missing → rest = []) :
    takeLine ((l.text ++ rest).map .char) = (.ok (some (.ofList l.kept)), rest.map .char) := by
  have filled : ((l.text ++ rest).map Text.Item.char).isEmpty = false := by
    simp [wellFormed.text_ne_nil]
  rw [takeLine, filled, if_neg Bool.false_ne_true, Text.splitLine_line wellFormed last]
  simp only [Text.ofItems?_chars, trimLine_line wellFormed.noFeed]

end Console

namespace Store

/-- Lines are read until there is none left: what the reads give, and the store after them. -/
inductive ReadsAll (f : FrameId) : Store → List String → Store → Prop where
  | done {s t : Store} (ended : s.readLine f = (.ok none, t)) : ReadsAll f s [] t
  | line {s middle t : Store} {text : String} {read : List String}
      (first : s.readLine f = (.ok (some text), middle)) (others : ReadsAll f middle read t) :
      ReadsAll f s (text :: read) t

variable {s t : Store} {f : FrameId}

theorem ReadsAll.unique {read again : List String} {t' : Store} (reads : ReadsAll f s read t)
    (others : ReadsAll f s again t') : again = read ∧ t' = t := by
  induction reads generalizing again with
  | done ended =>
      cases others with
      | done ended' => exact ⟨rfl, (Prod.mk.inj (ended'.symm.trans ended)).2⟩
      | line first _ => cases first.symm.trans ended
  | line first _ ih =>
      cases others with
      | done ended => cases ended.symm.trans first
      | line first' others =>
          cases first'.symm.trans first
          exact (ih others).imp (congrArg _) id

/-- A store with another input for the console of a frame. -/
def setInput (s : Store) (f : FrameId) (input : List Text.Item) : Store :=
  s.modifyConsole f fun console => { console with input }

theorem setInput_setInput (s : Store) (f : FrameId) (input later : List Text.Item) :
    (s.setInput f input).setInput f later = s.setInput f later := by
  have consoles : (s.consoles.modify (s.consoleOf f) fun console => { console with input }).modify
      (s.consoleOf f) (fun console => { console with input := later }) =
        s.consoles.modify (s.consoleOf f) fun console => { console with input := later } := by
    apply Array.ext_getElem?
    intro k
    simp only [Array.getElem?_modify]
    split
    · rw [Option.map_map]
      rfl
    · rfl
  exact congrArg (fun consoles => { s with consoles }) consoles

theorem input_setInput {input : List Text.Item} (present : (s.console f).input ≠ []) :
    ((s.setInput f input).console f).input = input := by
  have found : s.consoles[s.consoleOf f]? = some (s.console f) := by
    rw [console] at present ⊢
    cases here : s.consoles[s.consoleOf f]? with
    | some own => rfl
    | none => exact absurd (by rw [here]) present
  have same : (s.setInput f input).consoleOf f = s.consoleOf f := rfl
  rw [console, same, setInput, modifyConsole]
  simp only [Array.getElem?_modify, if_true, found, Option.map_some]

theorem readsAll_kept {text : List Char} {lines : List Text.Line}
    (divided : Text.Lines text lines) (input : (s.console f).input = text.map .char) :
    ReadsAll f s (lines.map fun l => .ofList l.kept) (s.setInput f []) := by
  induction divided generalizing s with
  | nil =>
      refine .done ?_
      rw [readLine, input]
      rfl
  | @cons l rest _ wellFormed last _ ih =>
      have present : (s.console f).input ≠ [] := by
        rw [input]
        simp [wellFormed.text_ne_nil]
      have others := ih (input_setInput present)
      rw [setInput_setInput] at others
      have first : s.readLine f = (.ok (some (.ofList l.kept)), s.setInput f (rest.map .char)) := by
        rw [readLine, input, Console.takeLine_line wellFormed last, setInput]
      exact .line first others

/-- Reading an input of text to its end never fails and takes all lines off it, in order. Each read
gives the content of its line, but for carriage returns at its end. So the lines come out as they
are, and the text can be made up again of what was read and of the endings, exactly if no line has a
carriage return before its ending. -/
theorem readsAll_lines (s : Store) (f : FrameId) (text : String)
    (input : (s.console f).input = Text.items text) :
    ∃ lines, Text.Lines text.toList lines ∧
      (∀ others, Text.Lines text.toList others → others = lines) ∧
      (∀ read t, s.ReadsAll f read t ↔
        read = lines.map (fun l => .ofList l.kept) ∧ t = s.setInput f []) ∧
      (∀ l ∈ lines, ∃ returns, l.content = l.kept ++ List.replicate returns '\r') ∧
      ((∃ t, s.ReadsAll f (lines.map fun l => .ofList l.content) t) ↔
        ∀ l ∈ lines, l.content.getLast? ≠ some '\r') ∧
      ((lines.map Text.Line.rebuilt).flatten = text.toList ↔
        ∀ l ∈ lines, l.content.getLast? ≠ some '\r') := by
  obtain ⟨lines, divided⟩ := Text.Lines.exists_lines text.toList
  have reads := readsAll_kept divided input
  refine ⟨lines, divided, fun _ => divided.unique, fun read t => ⟨reads.unique, ?_⟩,
    fun l _ => l.exists_content_eq, ?_, ?_⟩
  · rintro ⟨rfl, rfl⟩
    exact reads
  · simp only [← Text.Line.kept_eq_content_iff]
    constructor
    · rintro ⟨t, again⟩ l mem
      have same := List.map_inj_left.mp (reads.unique again).1 l mem
      exact (String.ofList_injective same).symm
    · intro whole
      have same : (lines.map fun l => String.ofList l.content) =
          lines.map fun l => .ofList l.kept :=
        List.map_congr_left fun l mem => by rw [whole l mem]
      exact ⟨_, same ▸ reads⟩
  · simp only [← Text.Line.kept_eq_content_iff]
    exact divided.rebuilt_iff

/-- A line with a carriage return before its ending, an empty one, and one that only the end of the
text ends. -/
private def returnedText : String := "a\r\r\n\nb"

private def returnedStore : Store := .initial (Text.items returnedText) false

private def returnedLines : List Text.Line :=
  [⟨['a', '\r'], .returnFeed⟩, ⟨[], .feed⟩, ⟨['b'], .missing⟩]

private theorem lines_returnedText : Text.Lines returnedText.toList returnedLines := by
  have first : Text.Line.WellFormed ⟨['a', '\r'], .returnFeed⟩ := ⟨by decide, nofun, nofun⟩
  have second : Text.Line.WellFormed ⟨[], .feed⟩ := ⟨by decide, by decide, nofun⟩
  have third : Text.Line.WellFormed ⟨['b'], .missing⟩ := ⟨by decide, nofun, by decide⟩
  have divided := Text.Lines.cons first nofun (.cons second nofun (.cons third (fun _ => rfl) .nil))
  exact divided

theorem readsAll_lines_returned :
    (returnedStore.console 0).input = Text.items returnedText ∧
      returnedStore.ReadsAll 0 ["a", "", "b"] (returnedStore.setInput 0 []) ∧
      (returnedLines.map Text.Line.rebuilt).flatten ≠ returnedText.toList := by
  obtain ⟨lines, -, unique, reads, -, -, rebuilt⟩ := readsAll_lines returnedStore 0 returnedText rfl
  obtain rfl := unique _ lines_returnedText
  refine ⟨rfl, (reads _ _).mpr ⟨by decide, rfl⟩, mt rebuilt.mp ?_⟩
  decide

/-- Reading does not give the lines of every text. -/
theorem not_readsAll_contents :
    (returnedStore.console 0).input = Text.items returnedText ∧
      Text.Lines returnedText.toList returnedLines ∧
      ¬ ∃ t, returnedStore.ReadsAll 0 (returnedLines.map fun l => .ofList l.content) t := by
  refine ⟨rfl, lines_returnedText, ?_⟩
  rintro ⟨t, reads⟩
  have read := (readsAll_kept lines_returnedText rfl).unique reads
  exact absurd read.1 (by decide)

end Store

end Lisp
