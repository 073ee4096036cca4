import Mathlib.Data.List.DropRight
import Mgsim.Lib.Search
import Mgsim.Sim.InputConfig

namespace Mgsim.Sim
open Mgsim.Lib

def isspace (c : Char) : Bool := [' ', '\t', '\n', '\x0b', '\x0c', '\r'].contains c

def isprint (c : Char) : Bool := 32 ≤ c.toNat && c.toNat ≤ 126

/-- The characters of a key, a section name, a value and the rest of a line, and those that `WHITESPACE` skips. -/
def isKeyChar (c : Char) : Bool := c.isAlphanum || ['_', '*', '.', ':'].contains c

def isSectionChar (c : Char) : Bool := !([']', '\n'].contains c)

def isValueChar (c : Char) : Bool := !(['\n', '#', ';'].contains c)

def isLineChar (c : Char) : Bool := c != '\n'

def isBlank (c : Char) : Bool := [' ', '\t'].contains c

def ConfigMap.append (map : List (ConfigText × ConfigText)) (key val : ConfigText) : List (ConfigText × ConfigText) :=
  map ++ [(key.map Char.toLower, val)]

/-- The text that is left, up to the end of the string. A character stands for a byte. -/
structure ConfigParser where
  lookahead : ConfigText
  linenr : Nat
  data : List (ConfigText × ConfigText)
  keyPrefix : ConfigText

namespace ConfigParser

def current (p : ConfigParser) : Char := p.lookahead.headD '\x00'

/-- The number of a signed character. -/
def charCode (c : Char) : Int := if c.toNat < 128 then c.toNat else c.toNat - 256

def syntaxError (linenr : Nat) (found expected : Char) : ConfigText :=
  let shown (c : Char) := (if isprint c then c else '?') :: "' (".toList ++ (toString (charCode c)).toList
  "Syntax error in configuration: line ".toList ++ (toString linenr).toList ++ ", found '".toList ++ shown found ++
    "), expected '".toList ++ shown expected ++ [')']

def expect (p : ConfigParser) (c : Char) : Except ConfigText ConfigParser :=
  if p.current ≠ c then .error (syntaxError p.linenr p.current c) else .ok p

def matchChar (p : ConfigParser) (c : Char) : Except ConfigText ConfigParser := do
  let p ← p.expect c
  return { p with lookahead := p.lookahead.tail }

def nextLine (p : ConfigParser) : ConfigParser := { p with lookahead := p.lookahead.dropWhile isLineChar }

def whitespace (p : ConfigParser) : ConfigParser := { p with lookahead := p.lookahead.dropWhile isBlank }

def mlWhitespace (p : ConfigParser) : ConfigParser :=
  { p with
    linenr := p.linenr + (p.lookahead.takeWhile isspace).count '\n'
    lookahead := p.lookahead.dropWhile isspace }

def parseSectionstr (p : ConfigParser) : Except ConfigText ConfigParser := do
  let p ← matchChar { p with keyPrefix := [] } '['
  let p ← matchChar { p with
    keyPrefix := p.lookahead.takeWhile isSectionChar
    lookahead := p.lookahead.dropWhile isSectionChar } ']'
  return { p with keyPrefix := p.keyPrefix.map Char.toLower }

/-- `find_last_not_of` has no position in a value of white space only: nothing is erased then. -/
def stripEnd (value : ConfigText) : ConfigText :=
  let kept := value.rdropWhile isspace
  if kept = [] then value else kept

def qualified (keyPrefix key : ConfigText) : ConfigText :=
  if keyPrefix ≠ [] ∧ keyPrefix ≠ "global".toList then
    if key.head? ≠ some ':' then keyPrefix ++ '.' :: key else keyPrefix ++ key
  else key

/-- The value is read up to a comment or the end of the line, and a comment is skipped. -/
def parseValuestr (p : ConfigParser) : ConfigText × ConfigParser :=
  let q := { p with lookahead := p.lookahead.dropWhile isValueChar }
  (p.lookahead.takeWhile isValueChar, if q.current = '#' ∨ q.current = ';' then q.nextLine else q)

def parseKeyvalue (p : ConfigParser) : Except ConfigText ConfigParser := do
  let key := p.lookahead.takeWhile isKeyChar
  let p ← (whitespace { p with lookahead := p.lookahead.dropWhile isKeyChar }).matchChar '='
  if key = [] then
    .error ("Empty key found before '=' in configuration around line ".toList ++ (toString p.linenr).toList)
  else
    let read := p.whitespace.parseValuestr
    return { read.2 with data := ConfigMap.append read.2.data (qualified read.2.keyPrefix key) (stripEnd read.1) }

def parseItem (p : ConfigParser) : Except ConfigText ConfigParser :=
  if p.current = '[' then p.parseSectionstr else p.parseKeyvalue

/-- The loop of the parser, which has no result after more than `fuel` rounds. -/
def loop : Nat → ConfigParser → Option (Except ConfigText ConfigParser)
  | fuel, p =>
    match p.lookahead with
    | [] => some (p.expect '\x00')
    | c :: _ =>
      match fuel with
      | 0 => none
      | fuel + 1 =>
        if isspace c then loop fuel p.mlWhitespace
        else if c = '#' ∨ c = ';' then loop fuel p.nextLine
        else
          match p.parseItem with
          | .error e => some (.error e)
          | .ok p => loop fuel p

/-- A string ends at its first null character. -/
def parse (p : ConfigParser) (inputdata : ConfigText) : Option (Except ConfigText ConfigParser) :=
  loop inputdata.length { p with lookahead := inputdata.takeWhile (· ≠ '\x00'), linenr := 1 }

end ConfigParser

/-- What a line means in a section: the section after it, and its entry with the whole text between the `=` and a
comment or the end of the line. A header is followed by the rest of its line. -/
inductive LineReads : ConfigText → ConfigText → ConfigText → List (ConfigText × ConfigText) → Prop
  | nil {s} : LineReads s [] s []
  | space {s c line s' entries} : isspace c = true → LineReads s line s' entries → LineReads s (c :: line) s' entries
  | comment {s c line} : c = '#' ∨ c = ';' → LineReads s (c :: line) s []
  | header {s name line s' entries} : ']' ∉ name → LineReads (name.map Char.toLower) line s' entries →
      LineReads s ('[' :: (name ++ ']' :: line)) s' entries
  | keyValue {s key blanks line} : key ≠ [] → (∀ c ∈ key, isKeyChar c = true) → (∀ c ∈ blanks, isBlank c = true) →
      LineReads s (key ++ (blanks ++ '=' :: line)) s
        [((ConfigParser.qualified s key).map Char.toLower, line.takeWhile isValueChar)]

/-- What the lines of a text mean one after another. -/
inductive TextReads : ConfigText → ConfigText → ConfigText → List (ConfigText × ConfigText) → Prop
  | last {s line s' entries} : '\n' ∉ line → LineReads s line s' entries → TextReads s line s' entries
  | line {s line mid entries rest s' more} : '\n' ∉ line → LineReads s line mid entries →
      TextReads mid rest s' more → TextReads s (line ++ '\n' :: rest) s' (entries ++ more)

/-- A text without the white space around it. -/
def trim (text : ConfigText) : ConfigText := (text.dropWhile isspace).rdropWhile isspace

namespace ConfigParser

/-- The parser ends with an error, or with the entries of all lines and their trimmed values. -/
def Parses (p : ConfigParser) (inputdata : ConfigText) : Prop :=
  ∃ result, p.parse inputdata = some result ∧ ∀ p', result = .ok p' →
    ∃ s' entries, TextReads p.keyPrefix (inputdata.takeWhile (· ≠ '\x00')) s' entries ∧
      p'.data = p.data ++ entries.map fun entry => (entry.1, trim entry.2)

/-- The value does not begin, behind its blanks, with other white space. -/
def Tight (text : ConfigText) : Prop := ∀ c, (text.dropWhile isBlank).head? = some c → isspace c = false

end ConfigParser

/-! ### Lines -/

/-- A key does not begin like anything else. -/
theorem isKeyChar_only {c : Char} (key : isKeyChar c = true) :
    isspace c = false ∧ isBlank c = false ∧ isLineChar c = true ∧ c ≠ '#' ∧ c ≠ ';' ∧ c ≠ '[' ∧ c ≠ '=' := by
  have other (d : Char) (no : isKeyChar d = false) : c ≠ d := by
    rintro rfl
    rw [no] at key
    cases key
  have spaces := And.intro (other ' ' (by decide)) (And.intro (other '\t' (by decide)) (And.intro (other '\n' (by decide))
    (And.intro (other '\x0b' (by decide)) (And.intro (other '\x0c' (by decide)) (other '\r' (by decide))))))
  refine ⟨?_, ?_, ?_, other _ (by decide), other _ (by decide), other _ (by decide), other _ (by decide)⟩
  · simp [isspace, spaces]
  · simp [isBlank, spaces]
  · simp [isLineChar, spaces]

section Lines
variable {s s' line rest text : ConfigText} {c : Char} {entries : List (ConfigText × ConfigText)}

/-- What a line can be that is not empty. -/
theorem LineReads.uncons (reads : LineReads s (c :: line) s' entries) :
    (isspace c = true ∧ LineReads s line s' entries) ∨ ((c = '#' ∨ c = ';') ∧ s' = s ∧ entries = []) ∨
      (c = '[' ∧ ∃ name rest, line = name ++ ']' :: rest ∧ ']' ∉ name ∧
        LineReads (name.map Char.toLower) rest s' entries) ∨
      (isKeyChar c = true ∧ s' = s ∧ ∃ key blanks rest, c :: line = key ++ (blanks ++ '=' :: rest) ∧ key ≠ [] ∧
        (∀ c ∈ key, isKeyChar c = true) ∧ (∀ c ∈ blanks, isBlank c = true) ∧
        entries = [((ConfigParser.qualified s key).map Char.toLower, rest.takeWhile isValueChar)]) := by
  generalize whole : c :: line = all at reads
  cases reads with
  | nil => cases whole
  | space space reads =>
    cases whole
    exact Or.inl ⟨space, reads⟩
  | comment comment =>
    cases whole
    exact Or.inr (Or.inl ⟨comment, rfl, rfl⟩)
  | header inside reads =>
    cases whole
    exact Or.inr (Or.inr (Or.inl ⟨rfl, _, _, rfl, inside, reads⟩))
  | @keyValue _ key blanks rest some keys blank =>
    refine Or.inr (Or.inr (Or.inr ⟨?_, rfl, key, blanks, rest, rfl, some, keys, blank, rfl⟩))
    cases key with
    | nil => exact absurd rfl some
    | cons k key =>
      cases whole
      exact keys c List.mem_cons_self

theorem lineReads_nil : LineReads s [] s' entries ↔ s' = s ∧ entries = [] := by
  constructor
  · intro reads
    generalize whole : ([] : ConfigText) = all at reads
    cases reads with
    | nil => exact ⟨rfl, rfl⟩
    | space => cases whole
    | comment => cases whole
    | header => cases whole
    | keyValue some => exact absurd (List.append_eq_nil_iff.mp whole.symm).1 some
  · rintro ⟨rfl, rfl⟩
    exact .nil

theorem lineReads_space (space : isspace c = true) :
    LineReads s (c :: line) s' entries ↔ LineReads s line s' entries := by
  refine ⟨fun reads => ?_, .space space⟩
  rcases reads.uncons with ⟨_, below⟩ | ⟨comment, _⟩ | ⟨header, _⟩ | ⟨key, _⟩
  · exact below
  · rcases comment with rfl | rfl <;> cases space
  · subst header
    cases space
  · rw [(isKeyChar_only key).1] at space
    cases space

theorem lineReads_comment (comment : c = '#' ∨ c = ';') :
    LineReads s (c :: line) s' entries ↔ s' = s ∧ entries = [] := by
  constructor
  · intro reads
    rcases reads.uncons with ⟨space, _⟩ | ⟨_, same⟩ | ⟨header, _⟩ | ⟨key, _⟩
    · rcases comment with rfl | rfl <;> cases space
    · exact same
    · subst header
      rcases comment with wrong | wrong <;> cases wrong
    · have only := isKeyChar_only key
      rcases comment with rfl | rfl
      · exact absurd rfl only.2.2.2.1
      · exact absurd rfl only.2.2.2.2.1
  · rintro ⟨rfl, rfl⟩
    exact .comment comment

theorem lineReads_header : LineReads s ('[' :: line) s' entries ↔
    ∃ name rest, line = name ++ ']' :: rest ∧ ']' ∉ name ∧ LineReads (name.map Char.toLower) rest s' entries := by
  constructor
  · intro reads
    rcases reads.uncons with ⟨space, _⟩ | ⟨comment, _⟩ | ⟨_, below⟩ | ⟨key, _⟩
    · cases space
    · rcases comment with wrong | wrong <;> cases wrong
    · exact below
    · cases key
  · rintro ⟨name, rest, rfl, inside, reads⟩
    exact .header inside reads

/-- A line that begins with something else is an item. -/
theorem lineReads_item (space : isspace c = false) (comment : ¬ (c = '#' ∨ c = ';')) (header : c ≠ '[') :
    LineReads s (c :: line) s' entries ↔ s' = s ∧ (c :: line).takeWhile isKeyChar ≠ [] ∧ ∃ rest,
      ((c :: line).dropWhile isKeyChar).dropWhile isBlank = '=' :: rest ∧
        entries = [((ConfigParser.qualified s ((c :: line).takeWhile isKeyChar)).map Char.toLower,
          rest.takeWhile isValueChar)] := by
  constructor
  · intro reads
    rcases reads.uncons with ⟨wrong, _⟩ | ⟨wrong, _⟩ | ⟨wrong, _⟩ |
      ⟨_, same, key, blanks, rest, whole, some, keys, blank, found⟩
    · rw [space] at wrong
      cases wrong
    · exact absurd wrong comment
    · exact absurd wrong header
    · have stop : ∀ c, (blanks ++ '=' :: rest).head? = Option.some c → isKeyChar c = false := by
        intro c first
        cases blanks with
        | nil =>
          cases first
          decide
        | cons b blanks =>
          cases first
          by_contra key
          rw [Bool.not_eq_false] at key
          have only := (isKeyChar_only key).2.1
          rw [blank c List.mem_cons_self] at only
          cases only
      have stop' : ∀ c, ('=' :: rest).head? = Option.some c → isBlank c = false := by
        intro c first
        cases first
        decide
      rw [whole, takeWhile_span keys stop, dropWhile_span keys stop, dropWhile_span blank stop']
      exact ⟨same, some, rest, rfl, found⟩
  · rintro ⟨rfl, some, rest, found, rfl⟩
    have whole : c :: line = (c :: line).takeWhile isKeyChar ++
        (((c :: line).dropWhile isKeyChar).takeWhile isBlank ++ '=' :: rest) := by
      rw [← found, List.takeWhile_append_dropWhile, List.takeWhile_append_dropWhile]
    have keys : ∀ d ∈ (c :: line).takeWhile isKeyChar, isKeyChar d = true := fun d member =>
      List.mem_takeWhile_imp member
    have blanks : ∀ d ∈ ((c :: line).dropWhile isKeyChar).takeWhile isBlank, isBlank d = true := fun d member =>
      List.mem_takeWhile_imp member
    have reads := @LineReads.keyValue s' _ _ rest some keys blanks
    rwa [← whole] at reads

/-- A text goes on behind a line at the end of the line. -/
def AtEnd (rest : ConfigText) : Prop := ∀ c, rest.head? = some c → isLineChar c = false

theorem not_mem_iff_isLineChar : '\n' ∉ line ↔ ∀ c ∈ line, isLineChar c = true := by
  simp only [isLineChar, bne_iff_ne]
  exact ⟨fun absent c member same => absent (same ▸ member), fun all member => all _ member rfl⟩

theorem atEnd_dropWhile (text : ConfigText) : AtEnd (text.dropWhile isLineChar) := fun _ first => head?_dropWhile_fails first

theorem AtEnd.cases (ended : AtEnd rest) : rest = [] ∨ ∃ text, rest = '\n' :: text := by
  cases rest with
  | nil => exact Or.inl rfl
  | cons c text =>
    have newline := ended c rfl
    rw [isLineChar, bne_eq_false_iff_eq] at newline
    exact Or.inr ⟨text, by rw [newline]⟩

/-- What ends a line is none of the other characters. -/
theorem AtEnd.stop {rest : ConfigText} {test : Char → Bool} (ended : AtEnd rest) (newline : test '\n' = false) :
    ∀ c, rest.head? = some c → test c = false := by
  rcases ended.cases with rfl | ⟨text, rfl⟩ <;> intro c first <;> cases first
  exact newline

theorem textReads_nil : TextReads s [] s' entries ↔ s' = s ∧ entries = [] := by
  constructor
  · intro reads
    generalize whole : ([] : ConfigText) = all at reads
    cases reads with
    | last _ reads => exact lineReads_nil.mp (whole ▸ reads)
    | @line _ line =>
      cases line <;> cases whole
  · rintro ⟨rfl, rfl⟩
    exact .last List.not_mem_nil .nil

theorem textReads_newline : TextReads s ('\n' :: text) s' entries ↔ TextReads s text s' entries := by
  constructor
  · intro reads
    generalize whole : '\n' :: text = all at reads
    cases reads with
    | last inside =>
      rw [← whole] at inside
      exact absurd List.mem_cons_self inside
    | @line _ line mid first rest _ more inside reads after =>
      cases line with
      | nil =>
        cases whole
        obtain ⟨rfl, rfl⟩ := lineReads_nil.mp reads
        exact after
      | cons c line =>
        cases whole
        exact absurd List.mem_cons_self inside
  · intro reads
    exact @TextReads.line s [] s [] text s' entries List.not_mem_nil .nil reads

/-- The first line is read before the rest. -/
theorem textReads_append (inside : '\n' ∉ line) (ended : AtEnd rest) :
    TextReads s (line ++ rest) s' entries ↔ ∃ mid first more, LineReads s line mid first ∧
      TextReads mid rest s' more ∧ entries = first ++ more := by
  rcases ended.cases with rfl | ⟨text, rfl⟩
  · rw [List.append_nil]
    constructor
    · intro reads
      cases reads with
      | last _ reads => exact ⟨s', entries, [], reads, textReads_nil.mpr ⟨rfl, rfl⟩, (List.append_nil _).symm⟩
      | line => exact absurd (List.mem_append_right _ List.mem_cons_self) inside
    · rintro ⟨mid, first, more, reads, after, rfl⟩
      obtain ⟨rfl, rfl⟩ := textReads_nil.mp after
      rw [List.append_nil]
      exact .last inside reads
  · constructor
    · intro reads
      generalize whole : line ++ '\n' :: text = all at reads
      cases reads with
      | last absent =>
        rw [← whole] at absent
        exact absurd (List.mem_append_right _ List.mem_cons_self) absent
      | @line _ other mid first rest _ more inside' reads after =>
        obtain ⟨rfl, rfl⟩ := span_inj (by decide) (not_mem_iff_isLineChar.mp inside) (not_mem_iff_isLineChar.mp inside')
          whole
        exact ⟨mid, first, more, reads, textReads_newline.mpr after, rfl⟩
    · rintro ⟨mid, first, more, reads, after, rfl⟩
      exact .line inside reads (textReads_newline.mp after)

/-- Two texts mean the same if they differ in the first line, which means the same. -/
theorem textReads_congr {other : ConfigText} (inside : '\n' ∉ line) (inside' : '\n' ∉ other) (ended : AtEnd rest)
    {keyPrefix : ConfigText} (same : ∀ mid first, LineReads s line mid first ↔ LineReads keyPrefix other mid first) :
    TextReads s (line ++ rest) s' entries ↔ TextReads keyPrefix (other ++ rest) s' entries := by
  rw [textReads_append inside ended, textReads_append inside' ended]
  simp only [same]

theorem textReads_space (space : isspace c = true) :
    TextReads s (c :: text) s' entries ↔ TextReads s text s' entries := by
  by_cases newline : c = '\n'
  · rw [newline]
    exact textReads_newline
  · have inside : '\n' ∉ text.takeWhile isLineChar := by
      rw [not_mem_iff_isLineChar]
      exact fun c member => List.mem_takeWhile_imp member
    have parts := List.takeWhile_append_dropWhile (p := isLineChar) (l := text)
    have inside' : '\n' ∉ c :: text.takeWhile isLineChar := by
      rw [List.mem_cons, not_or]
      exact ⟨Ne.symm newline, inside⟩
    rw [← parts]
    exact textReads_congr inside' inside (atEnd_dropWhile text) fun mid first => lineReads_space space

theorem textReads_spaces (text : ConfigText) :
    TextReads s text s' entries ↔ TextReads s (text.dropWhile isspace) s' entries := by
  induction text with
  | nil => rfl
  | cons c text ih =>
    by_cases space : isspace c = true
    · rw [List.dropWhile_cons_of_pos space, textReads_space space, ih]
    · rw [List.dropWhile_cons_of_neg space]

end Lines

namespace ConfigParser
variable {p q : ConfigParser} {c : Char} {text : ConfigText} {found : List (ConfigText × ConfigText)}

/-- The entry that is stored for what a line means. -/
def stored (entry : ConfigText × ConfigText) : ConfigText × ConfigText := (entry.1, stripEnd (entry.2.dropWhile isBlank))

/-- A round of the loop takes off a part of the text that means these entries, and stores them. -/
structure Consumes (p q : ConfigParser) (found : List (ConfigText × ConfigText)) : Prop where
  shorter : q.lookahead.length < p.lookahead.length
  data : q.data = p.data ++ found.map stored
  reads : ∀ s' entries, TextReads p.keyPrefix p.lookahead s' entries ↔
    ∃ more, TextReads q.keyPrefix q.lookahead s' more ∧ entries = found ++ more

/-- A round that stores nothing. -/
theorem Consumes.nothing (shorter : q.lookahead.length < p.lookahead.length) (data : q.data = p.data)
    (reads : ∀ s' entries, TextReads p.keyPrefix p.lookahead s' entries ↔ TextReads q.keyPrefix q.lookahead s' entries) :
    Consumes p q [] where
  shorter := shorter
  data := by rw [data, List.map_nil, List.append_nil]
  reads s' entries := by
    rw [reads]
    exact ⟨fun after => ⟨entries, after, rfl⟩, fun ⟨_, after, same⟩ => same ▸ after⟩

theorem consumes_mlWhitespace (at_ : p.lookahead = c :: text) (space : isspace c = true) :
    Consumes p p.mlWhitespace [] := by
  refine .nothing ?_ rfl fun s' entries => textReads_spaces _
  rw [mlWhitespace, at_, List.dropWhile_cons_of_pos space, List.length_cons]
  exact Nat.lt_succ_of_le (List.dropWhile_suffix _).length_le

theorem takeWhile_inside (text : ConfigText) : '\n' ∉ text.takeWhile isLineChar := by
  rw [not_mem_iff_isLineChar]
  exact fun c member => List.mem_takeWhile_imp member

theorem consumes_nextLine (at_ : p.lookahead = c :: text) (comment : c = '#' ∨ c = ';') : Consumes p p.nextLine [] := by
  have inLine : isLineChar c = true := by rcases comment with rfl | rfl <;> decide
  have after : p.nextLine.lookahead = text.dropWhile isLineChar := by
    rw [nextLine, at_, List.dropWhile_cons_of_pos inLine]
  refine .nothing ?_ rfl fun s' entries => ?_
  · rw [after, at_, List.length_cons]
    exact Nat.lt_succ_of_le (List.dropWhile_suffix _).length_le
  · have whole : p.lookahead = (c :: text.takeWhile isLineChar) ++ text.dropWhile isLineChar := by
      rw [at_, List.cons_append, List.takeWhile_append_dropWhile]
    have inside : '\n' ∉ c :: text.takeWhile isLineChar := by
      rw [not_mem_iff_isLineChar]
      exact List.forall_mem_cons.mpr ⟨inLine, not_mem_iff_isLineChar.mp (takeWhile_inside text)⟩
    rw [whole, after, textReads_append inside (atEnd_dropWhile text)]
    simp only [lineReads_comment comment]
    constructor
    · rintro ⟨mid, first, more, ⟨rfl, rfl⟩, reads, rfl⟩
      exact reads
    · intro reads
      exact ⟨_, [], entries, ⟨rfl, rfl⟩, reads, rfl⟩

/-- A character is skipped if it is the next one. The text has no null characters. -/
theorem matchChar_cons (at_ : p.lookahead = c :: text) : p.matchChar c = .ok { p with lookahead := text } := by
  have here : p.current = c := by rw [current, at_, List.headD_cons]
  rw [matchChar, expect, if_neg (not_not_intro here)]
  show Except.ok _ = _
  rw [at_, List.tail_cons]

theorem matchChar_other (other : p.lookahead.head? ≠ some c) (some : c ≠ '\x00') : ∃ e, p.matchChar c = .error e := by
  have absent : p.current ≠ c := by
    rw [current]
    cases at_ : p.lookahead with
    | nil => exact some.symm
    | cons d text =>
      rw [at_] at other
      exact fun same => other (congrArg _ same)
  rw [matchChar, expect, if_pos absent]
  exact ⟨_, rfl⟩

/-- The name of a section ends at its bracket, or the text of the line has no bracket. -/
theorem section_span (text : ConfigText) :
    (∃ rest, text.dropWhile isSectionChar = ']' :: rest) ∨ AtEnd (text.dropWhile isSectionChar) ∧
      (text.dropWhile isSectionChar).head? ≠ some ']' := by
  cases after : text.dropWhile isSectionChar with
  | nil => exact Or.inr ⟨fun c first => (by cases first), by simp⟩
  | cons c rest =>
    have stop : isSectionChar c = false := head?_dropWhile_fails (congrArg List.head? after)
    by_cases bracket : c = ']'
    · exact Or.inl ⟨rest, by rw [bracket]⟩
    · refine Or.inr ⟨fun d first => ?_, by simpa using bracket⟩
      cases first
      have newline : c = '\n' := by simpa [isSectionChar, bracket] using stop
      rw [newline]
      decide

theorem section_chars (text : ConfigText) : ']' ∉ text.takeWhile isSectionChar ∧ '\n' ∉ text.takeWhile isSectionChar := by
  constructor <;> intro member <;> cases List.mem_takeWhile_imp member

/-- A header with a bracket changes the section, and without one it is an error, as the line means nothing. -/
theorem parseSectionstr_spec (at_ : p.lookahead = '[' :: text) :
    (∃ q, p.parseSectionstr = .ok q ∧ Consumes p q []) ∨
      ∃ e, p.parseSectionstr = .error e ∧ ∀ s' entries, ¬ TextReads p.keyPrefix p.lookahead s' entries := by
  have opened : matchChar { p with keyPrefix := [] } '[' = .ok { p with keyPrefix := [], lookahead := text } :=
    matchChar_cons (p := { p with keyPrefix := [] }) at_
  have parts := List.takeWhile_append_dropWhile (p := isSectionChar) (l := text)
  obtain ⟨noBracket, noNewline⟩ := section_chars text
  rcases section_span text with ⟨rest, after⟩ | ⟨ended, bracket⟩
  · have closed : matchChar { p with
          keyPrefix := text.takeWhile isSectionChar, lookahead := text.dropWhile isSectionChar } ']' =
        .ok { p with keyPrefix := text.takeWhile isSectionChar, lookahead := rest } :=
      matchChar_cons (p := { p with keyPrefix := _, lookahead := _ }) after
    refine Or.inl ⟨{ p with keyPrefix := (text.takeWhile isSectionChar).map Char.toLower, lookahead := rest }, ?_, ?_⟩
    · rw [parseSectionstr, opened]
      show (matchChar _ _ >>= _) = _
      rw [closed]
      rfl
    · rw [after] at parts
      refine .nothing ?_ rfl fun s' entries => ?_
      · rw [at_, ← parts, List.length_cons, List.length_append, List.length_cons]
        show rest.length < _
        omega
      · have line : p.lookahead = ('[' :: (text.takeWhile isSectionChar ++ ']' :: rest.takeWhile isLineChar)) ++
            rest.dropWhile isLineChar := by
          rw [at_, ← parts, List.cons_append, List.append_assoc, List.cons_append, List.takeWhile_append_dropWhile]
          simp only [parts]
        have inside : '\n' ∉ '[' :: (text.takeWhile isSectionChar ++ ']' :: rest.takeWhile isLineChar) := by
          simp only [List.mem_cons, List.mem_append, not_or]
          exact ⟨by decide, noNewline, by decide, takeWhile_inside rest⟩
        have whole := List.takeWhile_append_dropWhile (p := isLineChar) (l := rest)
        rw [line]
        show _ ↔ TextReads _ rest _ _
        conv_rhs => rw [← whole]
        refine textReads_congr inside (takeWhile_inside rest) (atEnd_dropWhile rest) fun mid first => ?_
        rw [lineReads_header]
        constructor
        · rintro ⟨name, line, same, absent, reads⟩
          have only (name : ConfigText) (absent : ']' ∉ name) : ∀ c ∈ name, (c != ']') = true := fun c member =>
            bne_iff_ne.mpr fun wrong => absent (wrong ▸ member)
          obtain ⟨rfl, rfl⟩ := span_inj (p := (· != ']')) (by decide) (only _ noBracket) (only _ absent) same
          exact reads
        · exact fun reads => ⟨_, _, rfl, noBracket, reads⟩
  · obtain ⟨e, failed⟩ := matchChar_other (p := { p with
      keyPrefix := text.takeWhile isSectionChar, lookahead := text.dropWhile isSectionChar }) bracket (by decide)
    refine Or.inr ⟨e, ?_, fun s' entries reads => ?_⟩
    · rw [parseSectionstr, opened]
      show (matchChar _ _ >>= _) = _
      rw [failed]
      rfl
    · rw [at_, ← parts, ← List.cons_append] at reads
      have inside : '\n' ∉ '[' :: text.takeWhile isSectionChar := by
        rw [List.mem_cons, not_or]
        exact ⟨by decide, noNewline⟩
      obtain ⟨_, _, _, header, _⟩ := (textReads_append inside ended).mp reads
      obtain ⟨name, rest, same, _⟩ := lineReads_header.mp header
      rw [same] at noBracket
      exact noBracket (List.mem_append_right _ List.mem_cons_self)

/-- A value ends with its line or before a comment, which is skipped. -/
theorem parseValuestr_spec {line rest : ConfigText} (at_ : p.lookahead = line ++ rest) (inside : '\n' ∉ line)
    (ended : AtEnd rest) : p.parseValuestr = (line.takeWhile isValueChar, { p with lookahead := rest }) := by
  have stop : ∀ c, rest.head? = some c → isValueChar c = false := ended.stop (by decide)
  rw [parseValuestr, at_, takeWhile_append_stop stop, dropWhile_append_stop stop]
  refine congrArg (Prod.mk _) ?_
  cases left : line.dropWhile isValueChar with
  | nil =>
    rcases ended.cases with rfl | ⟨text, rfl⟩ <;> rfl
  | cons d more =>
    have fails : isValueChar d = false := head?_dropWhile_fails (congrArg List.head? left)
    have member : ∀ c ∈ d :: more, c ∈ line := fun c member =>
      (List.dropWhile_suffix isValueChar).subset (left ▸ member)
    have inLine : ∀ c ∈ d :: more, isLineChar c = true := fun c here =>
      not_mem_iff_isLineChar.mp inside c (member c here)
    have comment : d = '#' ∨ d = ';' := by
      have notNewline : d ≠ '\n' := fun same => inside (same ▸ member d List.mem_cons_self)
      exact or_iff_not_imp_left.mpr (by simpa [isValueChar, notNewline] using fails)
    show (if d = '#' ∨ d = ';' then nextLine { p with lookahead := d :: more ++ rest } else _) = _
    rw [if_pos comment]
    show { p with lookahead := (d :: more ++ rest).dropWhile isLineChar } = _
    rw [dropWhile_span inLine ended]

/-- An item is stored with its value, or it is an error, as the line means nothing. -/
theorem parseKeyvalue_spec (at_ : p.lookahead = c :: text) (space : isspace c = false) (comment : ¬ (c = '#' ∨ c = ';'))
    (header : c ≠ '[') : (∃ q found, p.parseKeyvalue = .ok q ∧ Consumes p q found ∧ q.keyPrefix = p.keyPrefix) ∨
      ∃ e, p.parseKeyvalue = .error e ∧ ∀ s' entries, ¬ TextReads p.keyPrefix p.lookahead s' entries := by
  have inLine : isLineChar c = true := by
    rw [isLineChar, bne_iff_ne]
    rintro rfl
    cases space
  obtain ⟨line, rest, whole, inside, ended⟩ : ∃ line rest, text = line ++ rest ∧ '\n' ∉ c :: line ∧ AtEnd rest := by
    refine ⟨_, _, List.takeWhile_append_dropWhile.symm, ?_, atEnd_dropWhile text⟩
    rw [not_mem_iff_isLineChar]
    exact List.forall_mem_cons.mpr ⟨inLine, not_mem_iff_isLineChar.mp (takeWhile_inside text)⟩
  have lookahead : p.lookahead = (c :: line) ++ rest := by rw [at_, whole, List.cons_append]
  have key : p.lookahead.takeWhile isKeyChar = (c :: line).takeWhile isKeyChar := by
    rw [lookahead, takeWhile_append_stop (ended.stop (by decide))]
  have equals : (p.lookahead.dropWhile isKeyChar).dropWhile isBlank =
      ((c :: line).dropWhile isKeyChar).dropWhile isBlank ++ rest := by
    rw [lookahead, dropWhile_append_stop (ended.stop (by decide)), dropWhile_append_stop (ended.stop (by decide))]
  have meaning (s' : ConfigText) (entries : List (ConfigText × ConfigText)) :=
    @textReads_append p.keyPrefix s' (c :: line) rest entries inside ended
  simp only [lineReads_item space comment header, ← lookahead] at meaning
  unfold parseKeyvalue
  rw [key]
  by_cases found : ∃ value, ((c :: line).dropWhile isKeyChar).dropWhile isBlank = '=' :: value
  · obtain ⟨value, same⟩ := found
    rw [same, List.cons_append] at equals
    have matched : (whitespace { p with lookahead := p.lookahead.dropWhile isKeyChar }).matchChar '=' =
        .ok { p with lookahead := value ++ rest } := matchChar_cons equals
    rw [matched]
    by_cases empty : (c :: line).takeWhile isKeyChar = []
    · refine Or.inr ⟨_, if_pos empty, fun s' entries reads => ?_⟩
      obtain ⟨_, _, _, item, _⟩ := (meaning s' entries).mp reads
      exact item.2.1 empty
    · have inside' : '\n' ∉ value := fun member => inside
        ((List.dropWhile_suffix isKeyChar).subset ((List.dropWhile_suffix isBlank).subset
          (same ▸ List.mem_cons_of_mem _ member)))
      have insideBlank : '\n' ∉ value.dropWhile isBlank := fun member =>
        inside' ((List.dropWhile_suffix isBlank).subset member)
      have read : (whitespace { p with lookahead := value ++ rest }).parseValuestr =
          ((value.takeWhile isValueChar).dropWhile isBlank, { p with lookahead := rest }) := by
        have after : (whitespace { p with lookahead := value ++ rest }).lookahead = value.dropWhile isBlank ++ rest :=
          dropWhile_append_stop (ended.stop (by decide))
        have short : ∀ c, isBlank c = true → isValueChar c = true := by
          intro c blank
          rcases List.mem_pair.mp (List.contains_iff_mem.mp blank) with rfl | rfl <;> decide
        rw [parseValuestr_spec after insideBlank ended, takeWhile_dropWhile_comm short]
        rfl
      refine Or.inl ⟨{ p with
        lookahead := rest
        data := ConfigMap.append p.data (qualified p.keyPrefix ((c :: line).takeWhile isKeyChar))
          (stripEnd ((value.takeWhile isValueChar).dropWhile isBlank)) }, [((qualified p.keyPrefix ((c :: line).takeWhile isKeyChar)).map Char.toLower,
        value.takeWhile isValueChar)], (if_neg empty).trans (by rw [read]; rfl), ⟨?_, rfl, fun s' entries => ?_⟩, rfl⟩
      · rw [lookahead, List.length_append, List.length_cons]
        show rest.length < _
        omega
      · rw [meaning]
        constructor
        · rintro ⟨mid, first, more, ⟨rfl, _, value', same', rfl⟩, reads, rfl⟩
          cases same.symm.trans same'
          exact ⟨more, reads, rfl⟩
        · rintro ⟨more, reads, rfl⟩
          exact ⟨_, _, more, ⟨rfl, empty, value, same, rfl⟩, reads, rfl⟩
  · have other : (whitespace { p with lookahead := p.lookahead.dropWhile isKeyChar }).lookahead.head? ≠ some '=' := by
      intro first
      have here : (((c :: line).dropWhile isKeyChar).dropWhile isBlank ++ rest).head? = some '=' := by
        rw [← equals]
        exact first
      cases left : ((c :: line).dropWhile isKeyChar).dropWhile isBlank with
      | nil =>
        rw [left] at here
        have wrong := ended '=' here
        cases wrong
      | cons d value =>
        rw [left] at here
        cases here
        exact found ⟨value, left⟩
    obtain ⟨e, failed⟩ := matchChar_other other (by decide)
    rw [failed]
    refine Or.inr ⟨e, rfl, fun s' entries reads => ?_⟩
    obtain ⟨_, _, _, ⟨_, _, value, same, _⟩, _⟩ := (meaning s' entries).mp reads
    exact found ⟨value, same⟩

/-- An item of the text is read, or it is an error. -/
theorem parseItem_spec (at_ : p.lookahead = c :: text) (space : isspace c = false) (comment : ¬ (c = '#' ∨ c = ';')) :
    (∃ q found, p.parseItem = .ok q ∧ Consumes p q found) ∨
      ∃ e, p.parseItem = .error e ∧ ∀ s' entries, ¬ TextReads p.keyPrefix p.lookahead s' entries := by
  have first : p.current = c := by rw [current, at_, List.headD_cons]
  unfold parseItem
  rw [first]
  by_cases header : c = '['
  · rw [if_pos header]
    subst header
    rcases parseSectionstr_spec at_ with ⟨q, done, consumes⟩ | failed
    · exact Or.inl ⟨q, [], done, consumes⟩
    · exact Or.inr failed
  · rw [if_neg header]
    rcases parseKeyvalue_spec at_ space comment header with ⟨q, found, done, consumes, _⟩ | failed
    · exact Or.inl ⟨q, found, done, consumes⟩
    · exact Or.inr failed

/-- The text is read to its end, or it is an error as it means nothing. -/
def Ends (p : ConfigParser) (result : Option (Except ConfigText ConfigParser)) : Prop :=
  (∃ q entries, result = some (.ok q) ∧ TextReads p.keyPrefix p.lookahead q.keyPrefix entries ∧
      q.data = p.data ++ entries.map stored ∧
      ∀ s' others, TextReads p.keyPrefix p.lookahead s' others → others = entries) ∨
    ∃ e, result = some (.error e) ∧ ∀ s' entries, ¬ TextReads p.keyPrefix p.lookahead s' entries

theorem Consumes.ends {result : Option (Except ConfigText ConfigParser)} (consumes : Consumes p q found)
    (rest : Ends q result) : Ends p result := by
  rcases rest with ⟨r, entries, done, reads, data, only⟩ | ⟨e, failed, nothing⟩
  · refine Or.inl ⟨r, found ++ entries, done, (consumes.reads _ _).mpr ⟨entries, reads, rfl⟩, ?_, ?_⟩
    · rw [data, consumes.data, List.map_append, List.append_assoc]
    · intro s' others reads'
      obtain ⟨more, after, rfl⟩ := (consumes.reads _ _).mp reads'
      rw [only s' more after]
  · refine Or.inr ⟨e, failed, fun s' entries reads => ?_⟩
    obtain ⟨more, after, _⟩ := (consumes.reads _ _).mp reads
    exact nothing s' more after

theorem ends_nil (fuel : Nat) (at_ : p.lookahead = []) : Ends p (loop fuel p) := by
  have done : loop fuel p = some (.ok p) := by
    rw [loop.eq_def]
    dsimp only
    rw [at_]
    dsimp only
    rw [expect, current, at_]
    rfl
  refine Or.inl ⟨p, [], done, ?_, (List.append_nil _).symm, fun s' others reads => ?_⟩
  · rw [at_]
    exact textReads_nil.mpr ⟨rfl, rfl⟩
  · rw [at_] at reads
    exact (textReads_nil.mp reads).2

/-- There are no more rounds than characters. -/
theorem loop_spec (fuel : Nat) (p : ConfigParser) (enough : p.lookahead.length ≤ fuel) : Ends p (loop fuel p) := by
  induction fuel generalizing p with
  | zero => exact ends_nil 0 (List.eq_nil_of_length_eq_zero (Nat.le_zero.mp enough))
  | succ fuel ih =>
    cases at_ : p.lookahead with
    | nil => exact ends_nil _ at_
    | cons c text =>
      have less {q : ConfigParser} {found : List (ConfigText × ConfigText)} (consumes : Consumes p q found) :
          q.lookahead.length ≤ fuel := by
        have shorter := consumes.shorter
        omega
      rw [loop.eq_def]
      dsimp only
      rw [at_]
      dsimp only
      by_cases space : isspace c = true
      · rw [if_pos space]
        have consumes := consumes_mlWhitespace at_ space
        exact consumes.ends (ih _ (less consumes))
      rw [if_neg space]
      by_cases comment : c = '#' ∨ c = ';'
      · rw [if_pos comment]
        have consumes := consumes_nextLine at_ comment
        exact consumes.ends (ih _ (less consumes))
      rw [if_neg comment]
      rcases parseItem_spec at_ (Bool.eq_false_iff.mpr space) comment with ⟨q, found, done, consumes⟩ |
        ⟨e, failed, nothing⟩
      · rw [done]
        exact consumes.ends (ih q (less consumes))
      · rw [failed]
        exact Or.inr ⟨e, rfl, nothing⟩

/-! ### The values -/

theorem stripEnd_eq (value : ConfigText) (some : ∃ c ∈ value, isspace c = false) : stripEnd value = value.rdropWhile isspace := by
  obtain ⟨c, member, solid⟩ := some
  rw [stripEnd]
  refine if_neg fun nothing => ?_
  rw [List.rdropWhile_eq_nil_iff] at nothing
  have space := nothing c member
  rw [solid] at space
  cases space

theorem stripEnd_head (c : Char) (value : ConfigText) : (stripEnd (c :: value)).head? = some c := by
  rw [stripEnd]
  obtain ⟨rest, whole⟩ := List.rdropWhile_prefix isspace (c :: value)
  cases kept : (c :: value).rdropWhile isspace with
  | nil => rfl
  | cons d more =>
    rw [kept] at whole
    cases whole
    rfl

theorem trim_head {value : ConfigText} (first : (trim value).head? = some c) : isspace c = false := by
  obtain ⟨rest, whole⟩ := List.rdropWhile_prefix isspace (value.dropWhile isspace)
  cases kept : trim value with
  | nil =>
    rw [kept] at first
    cases first
  | cons d more =>
    rw [kept] at first
    cases first
    rw [trim] at kept
    rw [kept] at whole
    exact head?_dropWhile_fails (congrArg List.head? whole.symm)

/-- What is stored for a value is trimmed exactly if its blanks are not followed by other white space. -/
theorem tight_of_stripEnd {value other : ConfigText} (same : stripEnd (other.dropWhile isBlank) = trim value) :
    Tight other := by
  intro c first
  cases after : other.dropWhile isBlank with
  | nil =>
    rw [after] at first
    cases first
  | cons d more =>
    rw [after] at first same
    cases first
    exact trim_head (same ▸ stripEnd_head c more)

theorem dropWhile_isspace (value : ConfigText) : value.dropWhile isspace = (value.dropWhile isBlank).dropWhile isspace := by
  induction value with
  | nil => rfl
  | cons c value ih =>
    by_cases blank : isBlank c = true
    · have space : isspace c = true := by
        rcases List.mem_pair.mp (List.contains_iff_mem.mp blank) with rfl | rfl <;> rfl
      rw [List.dropWhile_cons_of_pos blank, List.dropWhile_cons_of_pos space, ih]
    · rw [List.dropWhile_cons_of_neg blank]

theorem Tight.stripEnd {value : ConfigText} (tight : Tight value) : stripEnd (value.dropWhile isBlank) = trim value := by
  rw [trim, dropWhile_isspace]
  cases after : value.dropWhile isBlank with
  | nil => rfl
  | cons c more =>
    have solid := tight c (by rw [after]; rfl)
    rw [List.dropWhile_cons_of_neg (by simp [solid]), stripEnd_eq _ ⟨c, List.mem_cons_self, solid⟩]

theorem parse_spec (p : ConfigParser) (inputdata : ConfigText) :
    Ends { p with lookahead := inputdata.takeWhile (· ≠ '\x00'), linenr := 1 } (p.parse inputdata) :=
  loop_spec inputdata.length _ (List.takeWhile_prefix _).length_le

/-- The parser ends, and stores the entries of all lines with their trimmed values or reports an error, exactly if
in no value blanks are followed by other white space. -/
theorem parses_iff (p : ConfigParser) (inputdata : ConfigText) : p.Parses inputdata ↔
    ∀ s' entries, TextReads p.keyPrefix (inputdata.takeWhile (· ≠ '\x00')) s' entries →
      ∀ entry ∈ entries, Tight entry.2 := by
  have ends := parse_spec p inputdata
  constructor
  · rintro ⟨result, done, meant⟩ s' entries reads entry member
    rcases ends with ⟨q, all, finished, _, data, only⟩ | ⟨_, _, nothing⟩
    · cases Option.some.inj (done.symm.trans finished)
      obtain ⟨_, others, reads', trimmed⟩ := meant q rfl
      cases only _ _ reads
      cases only _ _ reads'
      have same := List.map_inj_left.mp (List.append_cancel_left (data.symm.trans trimmed)) entry member
      exact tight_of_stripEnd (congrArg Prod.snd same)
    · exact absurd reads (nothing s' entries)
  · intro tight
    rcases ends with ⟨q, entries, finished, reads, data, _⟩ | ⟨e, failed, _⟩
    · refine ⟨_, finished, fun p' same => ?_⟩
      cases same
      refine ⟨_, entries, reads, data.trans (congrArg _ (List.map_inj_left.mpr fun entry member => ?_))⟩
      rw [stored, (tight _ _ reads entry member).stripEnd]
    · refine ⟨_, failed, fun p' same => ?_⟩
      cases same

/-- An empty value before a carriage return keeps it. -/
theorem carriage_return_kept : ¬ ∀ (p : ConfigParser) (inputdata : ConfigText), p.Parses inputdata := by
  intro claimed
  obtain ⟨result, done, meant⟩ := claimed ⟨[], 0, [], []⟩ ['k', '=', '\r', '\n']
  have stops : parse ⟨[], 0, [], []⟩ ['k', '=', '\r', '\n'] = some (.ok ⟨[], 2, [(['k'], ['\r'])], []⟩) := rfl
  cases Option.some.inj (done.symm.trans stops)
  obtain ⟨_, entries, _, data⟩ := meant _ rfl
  have kept : [((['k'] : ConfigText), (['\r'] : ConfigText))] = entries.map fun entry => (entry.1, trim entry.2) := data
  obtain ⟨entry, _, same⟩ := List.mem_map.mp (kept ▸ List.mem_cons_self)
  have value : trim entry.2 = ['\r'] := congrArg Prod.snd same
  have wrong := trim_head (congrArg List.head? value)
  cases wrong

end ConfigParser

end Mgsim.Sim
