import LineScript.Proofs.Spelling
import LineScript.Report

/-!
# Paint in reports

A report with paint is the report without, and escape sequences.  Every sequence that switches
paint on is followed by one that switches it off before the next one comes, whatever the
diagnostic and the text it is about, as long as neither holds an escape character.
-/

namespace LineScript.Report

open LineScript.Text

/-! ## Escape sequences in a text -/

/-- What a text for a terminal consists of: characters, and sequences that switch paint. -/
inductive Mark where
  | shown (c : Char)
  | switch (parameters : List Char)
  deriving DecidableEq

def isParameter (c : Char) : Bool := c.isDigit || c == ';'

/-- The parameters of the sequence that a text begins with, and the text behind it. -/
def switch? : List Char → Option (List Char × List Char)
  | '\x1b' :: '[' :: rest =>
      match rest.dropWhile isParameter with
      | 'm' :: behind => some (rest.takeWhile isParameter, behind)
      | _ => none
  | _ => none

theorem length_lt_of_switch? {chars parameters behind : List Char}
    (found : switch? chars = some (parameters, behind)) : behind.length < chars.length := by
  unfold switch? at found
  split at found
  next rest =>
    split at found
    next ahead left =>
      cases found
      have shorter := (List.dropWhile_suffix isParameter (l := rest)).length_le
      rw [left] at shorter
      simp only [List.length_cons] at shorter ⊢
      omega
    next => contradiction
  next => contradiction

/-- A text taken apart from its front. -/
def marks : List Char → List Mark
  | [] => []
  | c :: rest =>
      match _found : switch? (c :: rest) with
      | some (parameters, behind) => .switch parameters :: marks behind
      | none => .shown c :: marks rest
termination_by chars => chars.length
decreasing_by
  · exact length_lt_of_switch? _found
  · simp

def Mark.shown? : Mark → Option Char
  | .shown c => some c
  | .switch _ => none

def Mark.switch? : Mark → Option (List Char)
  | .shown _ => none
  | .switch parameters => some parameters

/-- A text without its escape sequences. -/
def unpainted (text : String) : String :=
  String.ofList ((marks text.toList).filterMap Mark.shown?)

/-- The parameters of the escape sequences of a text. -/
def switches (text : String) : List (List Char) := (marks text.toList).filterMap Mark.switch?

/-- Every sequence but the last of a pair switches paint on, and the last of the pair, right
behind it, switches paint off. -/
inductive Closed : List (List Char) → Prop
  | nil : Closed []
  | pair {parameters : List Char} {rest : List (List Char)} (on : parameters ≠ ['0'])
      (closed : Closed rest) : Closed (parameters :: ['0'] :: rest)

def Unescaped (text : String) : Prop := '\x1b' ∉ text.toList

instance (text : String) : Decidable (Unescaped text) := inferInstanceAs (Decidable (_ ∉ _))

/-! ## Texts in front of others -/

theorem marks_cons_of_ne {c : Char} (other : c ≠ '\x1b') (rest : List Char) :
    marks (c :: rest) = .shown c :: marks rest := by
  have none : switch? (c :: rest) = none := by
    unfold switch?
    split
    next same => exact absurd (List.cons.inj same).1 other
    next => rfl
  rw [marks]
  split
  next found => simp [none] at found
  next => rfl

theorem marks_append_of_notMem {chars : List Char} (free : '\x1b' ∉ chars) (rest : List Char) :
    marks (chars ++ rest) = chars.map .shown ++ marks rest := by
  induction chars with
  | nil => rfl
  | cons c behind ih =>
      obtain ⟨other, free⟩ := not_or.mp (mt List.mem_cons.mpr free)
      rw [List.cons_append, marks_cons_of_ne (Ne.symm other), ih free]
      rfl

theorem marks_switch_append (parameters : List Char)
    (parametric : parameters.all isParameter = true) (rest : List Char) :
    marks ('\x1b' :: '[' :: (parameters ++ 'm' :: rest)) = .switch parameters :: marks rest := by
  have ends : isParameter 'm' = false := by decide
  have each : ∀ c ∈ parameters, isParameter c = true := List.all_eq_true.mp parametric
  have front : (parameters ++ 'm' :: rest).takeWhile isParameter = parameters := by
    rw [List.takeWhile_append_of_pos each, List.takeWhile_cons_of_neg (by simp [ends]),
      List.append_nil]
  have back : (parameters ++ 'm' :: rest).dropWhile isParameter = 'm' :: rest := by
    rw [List.dropWhile_append_of_pos each, List.dropWhile_cons_of_neg (by simp [ends])]
  have found : switch? ('\x1b' :: '[' :: (parameters ++ 'm' :: rest)) =
      some (parameters, rest) := by
    simp only [switch?, back, front]
  rw [marks]
  split
  next again =>
    rw [found] at again
    cases again
    rfl
  next missing =>
    rw [found] at missing
    contradiction

theorem Paint.code_parametric (paint : Paint) : paint.code.toList.all isParameter = true := by
  cases paint <;> decide

theorem Paint.code_ne_reset (paint : Paint) : paint.code.toList ≠ ['0'] := by
  cases paint <;> decide

/-! ## Fragments and rows -/

/-- A row without an escape character. -/
def Clean (row : Row) : Prop := ∀ fragment ∈ row, Unescaped fragment.text

def Fragment.marks (fragment : Fragment) : List Mark :=
  let shown := fragment.text.toList.map Mark.shown
  match fragment.paint with
  | some paint => .switch paint.code.toList :: (shown ++ [.switch ['0']])
  | none => shown

/-- The sequences around a fragment. -/
def Fragment.switches (fragment : Fragment) : List (List Char) :=
  match fragment.paint with
  | some paint => [paint.code.toList, ['0']]
  | none => []

/-- The marks of some rows, each with its line end. -/
def marksOfRows (rows : List Row) : List Mark :=
  rows.flatMap fun row => row.flatMap Fragment.marks ++ [.shown '\n']

theorem filterMap_shown (chars : List Char) :
    (chars.map Mark.shown).filterMap Mark.shown? = chars ∧
      (chars.map Mark.shown).filterMap Mark.switch? = [] := by
  induction chars with
  | nil => exact ⟨rfl, rfl⟩
  | cons c rest ih => simpa [Mark.shown?, Mark.switch?] using ih

namespace Fragment

variable (fragment : Fragment)

theorem shown_marks : fragment.marks.filterMap Mark.shown? = (fragment.render false).toList := by
  obtain ⟨paint, text⟩ := fragment
  have shown := (filterMap_shown text.toList).1
  cases paint with
  | none => exact shown
  | some paint =>
      simp only [marks, List.filterMap_cons, Mark.shown?, List.filterMap_append, shown]
      exact List.append_nil _

theorem switches_marks : fragment.marks.filterMap Mark.switch? = fragment.switches := by
  obtain ⟨paint, text⟩ := fragment
  have silent := (filterMap_shown text.toList).2
  cases paint with
  | none => exact silent
  | some paint =>
      simp only [marks, List.filterMap_cons, Mark.switch?, List.filterMap_append, silent]
      rfl

variable {fragment} in
theorem marks_render_append (clean : Unescaped fragment.text) (rest : List Char) :
    Report.marks ((fragment.render true).toList ++ rest) = fragment.marks ++ Report.marks rest := by
  obtain ⟨paint, text⟩ := fragment
  cases paint with
  | none => exact marks_append_of_notMem clean rest
  | some paint =>
      have on : "\x1b[".toList = ['\x1b', '['] ∧ "m".toList = ['m'] := by decide
      have off : "\x1b[0m".toList = '\x1b' :: '[' :: (['0'] ++ ['m']) := by decide
      have reset := marks_switch_append ['0'] (by decide) rest
      simp only [render, if_true, String.toList_append, on, off, List.cons_append, List.nil_append,
        List.append_assoc] at reset ⊢
      rw [marks_switch_append _ paint.code_parametric, marks_append_of_notMem clean, reset]
      simp [marks]

end Fragment

theorem toList_renderRow (colored : Bool) (row : Row) :
    (renderRow colored row).toList =
      row.flatMap (fun fragment => (fragment.render colored).toList) ++ ['\n'] := by
  rw [renderRow, String.toList_append, String.toList_join, List.flatMap_map]
  rfl

theorem marks_flatMap_append {row : Row} (clean : Clean row) (rest : List Char) :
    marks (row.flatMap (fun fragment => (fragment.render true).toList) ++ rest) =
      row.flatMap Fragment.marks ++ marks rest := by
  induction row with
  | nil => rfl
  | cons fragment others ih =>
      obtain ⟨first, clean⟩ := List.forall_mem_cons.mp clean
      rw [List.flatMap_cons, List.append_assoc, Fragment.marks_render_append first, ih clean,
        List.flatMap_cons, List.append_assoc]

theorem marks_renderRows {rows : List Row} (clean : ∀ row ∈ rows, Clean row) :
    marks (renderRows true rows).toList = marksOfRows rows := by
  induction rows with
  | nil => rw [marksOfRows]; exact marks.eq_1
  | cons row others ih =>
      obtain ⟨first, clean⟩ := List.forall_mem_cons.mp clean
      have lineEnd : '\n' ≠ '\x1b' := by decide
      rw [renderRows, List.map_cons, String.join_cons, String.toList_append, toList_renderRow,
        List.append_assoc, marks_flatMap_append first, List.singleton_append,
        marks_cons_of_ne lineEnd, ← renderRows, ih clean]
      simp [marksOfRows]

theorem shown_marksOfRows (rows : List Row) :
    (marksOfRows rows).filterMap Mark.shown? = (renderRows false rows).toList := by
  rw [renderRows, String.toList_join, List.flatMap_map, marksOfRows, List.filterMap_flatMap]
  simp only [toList_renderRow, List.filterMap_append, List.filterMap_flatMap, Fragment.shown_marks]
  rfl

theorem switches_marksOfRows (rows : List Row) :
    (marksOfRows rows).filterMap Mark.switch? = rows.flatten.flatMap Fragment.switches := by
  rw [marksOfRows, List.filterMap_flatMap]
  simp only [List.filterMap_append, List.filterMap_flatMap, Fragment.switches_marks]
  induction rows with
  | nil => rfl
  | cons row others ih => simp [ih, Mark.switch?]

theorem closed_switches (row : Row) : Closed (row.flatMap Fragment.switches) := by
  induction row with
  | nil => exact .nil
  | cons fragment others ih =>
      obtain ⟨paint, text⟩ := fragment
      cases paint with
      | none => exact ih
      | some paint => exact .pair paint.code_ne_reset ih

/-! ## Rows without an escape character -/

@[simp] theorem unescaped_append {left right : String} :
    Unescaped (left ++ right) ↔ Unescaped left ∧ Unescaped right := by
  simp [Unescaped]

theorem unescaped_naturalText (n : Nat) : Unescaped (Numeral.naturalText n) := by
  rw [Unescaped, Numeral.naturalText, String.toList_ofList]
  intro member
  exact absurd ((isDigits_naturalDigits n).2 _ member) (by decide)

theorem unescaped_replicate {c : Char} (other : c ≠ '\x1b') (count : Nat) :
    Unescaped (String.ofList (List.replicate count c)) := by
  rw [Unescaped, String.toList_ofList, List.mem_replicate]
  exact fun member => other member.2.symm

theorem unescaped_spaces (count : Nat) : Unescaped (spaces count) :=
  unescaped_replicate (by decide) count

@[simp] theorem clean_nil : Clean [] := by simp [Clean]

@[simp] theorem clean_cons {fragment : Fragment} {row : Row} :
    Clean (fragment :: row) ↔ Unescaped fragment.text ∧ Clean row := by
  simp [Clean]

@[simp] theorem clean_append {left right : Row} :
    Clean (left ++ right) ↔ Clean left ∧ Clean right := by
  simp [Clean, or_imp, forall_and]

@[simp] theorem text_plain (text : String) : (plain text).text = text := rfl

@[simp] theorem text_painted (paint : Paint) (text : String) : (painted paint text).text = text :=
  rfl

theorem clean_replicate {fragment : Fragment} (clean : Unescaped fragment.text) (count : Nat) :
    Clean (List.replicate count fragment) := by
  intro other member
  rwa [List.eq_of_mem_replicate member]

theorem clean_flatten {rows : List Row} (clean : ∀ row ∈ rows, Clean row) : Clean rows.flatten := by
  intro fragment member
  obtain ⟨row, inside, member⟩ := List.mem_flatten.mp member
  exact clean row inside fragment member

theorem clean_cell {first rest : String} (cleanFirst : Unescaped first) (cleanRest : Unescaped rest)
    (paint otherPaint : Option Paint) (width : Nat) :
    Clean (cell width ⟨paint, first⟩ ⟨otherPaint, rest⟩) := by
  cases width with
  | zero => exact clean_nil
  | succ more => exact clean_cons.mpr ⟨cleanFirst, clean_replicate cleanRest more⟩

theorem clean_underlineCell (label : Paint) (span : Span) (width index : Nat) :
    Clean (underlineCell label span width index) := by
  unfold underlineCell
  split
  · split <;> exact clean_cell (by decide) (by decide) _ _ width
  · split <;> exact clean_cell (by decide) (by decide) _ _ width

theorem clean_arrowCell (label : Paint) (span : Span) (width index : Nat) :
    Clean (arrowCell label span width index) := by
  unfold arrowCell
  split
  · exact clean_cell (by decide) (by decide) _ _ width
  · split <;> exact clean_cell (by decide) (by decide) _ _ width

theorem clean_markers {cellAt : (width index : Nat) → Row}
    (clean : ∀ width index, Clean (cellAt width index)) (text : List Char) (length : Nat) :
    Clean (markers text length cellAt) := by
  rw [markers, List.flatMap_def]
  apply clean_flatten
  intro row member
  obtain ⟨index, -, rfl⟩ := List.mem_map.mp member
  exact clean _ index

theorem clean_excerptCell (label : Paint) (span : Span) (index : Nat) {c : Char}
    (other : c ≠ '\x1b') : Clean (excerptCell label span index c) := by
  rw [excerptCell]
  generalize (if span.contains index then label else Paint.excerpt) = paint
  by_cases blank : isBlank c = true
  · rw [if_pos blank]
    exact clean_replicate (show Unescaped " " by decide) _
  · rw [if_neg blank]
    exact clean_cons.mpr ⟨by simpa [Unescaped] using other.symm, clean_nil⟩

theorem clean_textCells (label : Paint) (span : Span) {text : List Char} (free : '\x1b' ∉ text) :
    Clean (textCells label span text) := by
  apply clean_flatten
  intro row member
  obtain ⟨index, inside, rfl⟩ := List.mem_mapIdx.mp member
  refine clean_excerptCell label span index fun same => free ?_
  rw [← same]
  exact List.getElem_mem inside

theorem clean_margin (digits : Nat) : Clean (margin digits) := by
  have bar : Unescaped " " ∧ Unescaped "│" := by decide
  simp [margin, unescaped_spaces, bar]

theorem clean_gapMargin (digits : Nat) : Clean (gapMargin digits) := by
  have bar : Unescaped " " ∧ Unescaped "┆" := by decide
  simp [gapMargin, unescaped_spaces, bar]

theorem clean_lineMargin (digits line : Nat) : Clean (lineMargin digits line) := by
  have bar : Unescaped " " ∧ Unescaped " │" := by decide
  simp [lineMargin, unescaped_spaces, unescaped_naturalText, bar]

theorem clean_arrow (label : Paint) {corner : String} (clean : Unescaped corner) :
    Clean (arrow label corner) := by
  have shaft : Unescaped "─" ∧ Unescaped "▶" ∧ Unescaped " " := by decide
  simp [arrow, clean, shaft]

theorem clean_bar (label : Paint) {stroke : String} (clean : Unescaped stroke) :
    Clean (bar label stroke) := by
  have space : Unescaped " " := by decide
  simp [bar, clean, space]

theorem clean_noBar : Clean noBar := clean_replicate (by decide) 4

/-! ## Excerpts -/

namespace Excerpt

variable {excerpt : Excerpt}

theorem clean_markerRow (number length : Nat) {bar : Row} (cleanBar : Clean bar)
    {cellAt : (width index : Nat) → Row} (clean : ∀ width index, Clean (cellAt width index)) :
    Clean (excerpt.markerRow number length bar cellAt) := by
  simp only [markerRow, clean_append]
  exact ⟨⟨clean_margin _, cleanBar⟩, clean_markers clean _ length⟩

theorem clean_gapRow : Clean excerpt.gapRow :=
  clean_append.mpr ⟨clean_gapMargin _, clean_bar _ (by decide)⟩

theorem clean_footMargin : Clean excerpt.footMargin := by
  refine clean_append.mpr ⟨clean_margin _, ?_⟩
  split
  · exact clean_nil
  split
  · exact clean_bar _ (by decide)
  · exact clean_noBar

variable (text : ∀ line ∈ excerpt.lines, '\x1b' ∉ line) (message : Unescaped excerpt.message)

include text

theorem notMem_shownText (number : Nat) : '\x1b' ∉ excerpt.shownText number := by
  have free : '\x1b' ∉ excerpt.line number := by
    rw [line, List.getD_eq_getElem?_getD]
    cases found : excerpt.lines[number]? with
    | none => simp
    | some line => exact text line (List.mem_of_getElem? found)
  rw [shownText, dropEndWhile, List.mem_reverse]
  intro member
  exact free (List.mem_reverse.mp ((List.dropWhile_suffix isBlank).subset member))

theorem clean_lineRow (number : Nat) {bar : Row} (clean : Clean bar) :
    Clean (excerpt.lineRow number bar) := by
  simp only [lineRow, clean_append]
  exact ⟨⟨clean_lineMargin _ _, clean⟩, clean_textCells _ _ (notMem_shownText text number)⟩

include message

omit text in
theorem clean_messageCells : Clean excerpt.messageCells :=
  clean_cons.mpr ⟨show Unescaped " " by decide, clean_cons.mpr ⟨message, clean_nil⟩⟩

theorem clean_inlineRows : ∀ row ∈ excerpt.inlineRows, Clean row := by
  simp only [inlineRows, List.forall_mem_cons, clean_append]
  exact ⟨clean_lineRow text _ clean_nil, clean_markerRow _ _ clean_nil (clean_underlineCell _ _),
    ⟨clean_markerRow _ _ clean_nil (clean_arrowCell _ _), clean_messageCells message⟩, by simp⟩

theorem clean_endRows : ∀ row ∈ excerpt.endRows, Clean row := by
  have line (width _ : Nat) : Clean (barCell excerpt.label width 0) :=
    clean_cell (by decide) (by decide) _ _ width
  have blank (width index : Nat) : Clean (blankCell width index) :=
    clean_cell (by decide) (by decide) _ _ width
  have corner : Clean ([painted excerpt.label "╰"] ++
      List.replicate 3 (painted excerpt.label "─")) :=
    clean_append.mpr ⟨clean_cons.mpr ⟨show Unescaped "╰" by decide, clean_nil⟩,
      clean_replicate (show Unescaped "─" by decide) 3⟩
  simp only [endRows, List.forall_mem_cons, clean_append]
  exact ⟨clean_lineRow text _ (clean_arrow _ (by decide)),
    clean_markerRow _ _ (clean_bar _ (by decide)) blank,
    ⟨clean_markerRow _ _ corner line, clean_messageCells message⟩, by simp⟩

theorem clean_blockRows : ∀ row ∈ excerpt.blockRows, Clean row := by
  rw [blockRows, List.forall_mem_cons]
  refine ⟨clean_lineRow text _ (clean_arrow _ (by decide)), ?_⟩
  split
  · simpa using clean_gapRow
  split
  · exact clean_endRows text message
  · exact List.forall_mem_cons.mpr ⟨clean_gapRow, clean_endRows text message⟩

theorem clean_rows : ∀ row ∈ excerpt.rows, Clean row := by
  unfold rows
  split
  · exact clean_blockRows text message
  split
  · simpa using clean_margin _
  · exact clean_inlineRows text message

end Excerpt

/-! ## Reports -/

theorem clean_openingRows {filename : String} (clean : Unescaped filename) (excerpt : Excerpt) :
    ∀ row ∈ openingRows filename excerpt, Clean row := by
  have signs : Unescaped "╭" ∧ Unescaped "─" ∧ Unescaped "[" ∧ Unescaped "]" ∧ Unescaped "│" ∧
      Unescaped ":" := by decide
  simp [openingRows, clean, unescaped_spaces, unescaped_naturalText, signs]

theorem clean_noteRows {help : Option String} (clean : ∀ text ∈ help, Unescaped text)
    (excerpt : Excerpt) : ∀ row ∈ noteRows excerpt help, Clean row := by
  cases help with
  | none => simp [noteRows]
  | some text =>
      have words : Unescaped "Note" ∧ Unescaped ": " ∧ Unescaped "help" := by decide
      simp [noteRows, Excerpt.clean_footMargin, words, clean text rfl]

theorem clean_closingRow (excerpt : Excerpt) : Clean (closingRow excerpt) := by
  have corner : Unescaped "╯" := by decide
  simp [closingRow, unescaped_replicate, corner]

theorem Fragment.render_bare (fragment : Fragment) : fragment.render false = fragment.text := by
  obtain ⟨paint, text⟩ := fragment
  cases paint <;> rfl

theorem unescaped_renderRows {rows : List Row} (clean : ∀ row ∈ rows, Clean row) :
    Unescaped (renderRows false rows) := by
  rw [Unescaped, renderRows, String.toList_join, List.flatMap_map, List.mem_flatMap]
  rintro ⟨row, inside, escaped⟩
  rw [toList_renderRow, List.mem_append, List.mem_flatMap] at escaped
  rcases escaped with ⟨fragment, member, escaped⟩ | escaped
  · rw [fragment.render_bare] at escaped
    exact clean row inside fragment member escaped
  · exact absurd escaped (by decide)

/-- A text with paint, and the same text without. -/
structure IsPainted (colored bare : String) : Prop where
  same : unpainted colored = bare
  closed : Closed (switches colored)
  painted : switches colored ≠ []
  unescaped : Unescaped bare

theorem isPainted_renderRows {rows : List Row} (clean : ∀ row ∈ rows, Clean row)
    (painted : rows.flatten.flatMap Fragment.switches ≠ []) :
    IsPainted (renderRows true rows) (renderRows false rows) := by
  have marked := marks_renderRows clean
  have switched : switches (renderRows true rows) = rows.flatten.flatMap Fragment.switches := by
    rw [switches, marked, switches_marksOfRows]
  refine ⟨?_, ?_, ?_, ?_⟩
  · rw [unpainted, marked, shown_marksOfRows, String.ofList_toList]
  · rw [switched]
    exact closed_switches _
  · rwa [switched]
  · exact unescaped_renderRows clean

end LineScript.Report

namespace LineScript.Diagnostic

open LineScript.Report

section Rows

variable {diagnostic : Diagnostic} {source : String} {filename : Option String}
  (message : Unescaped diagnostic.message) (help : ∀ text ∈ diagnostic.help, Unescaped text)
  (text : Unescaped source) (origin : ∀ name ∈ filename, Unescaped name)

include message

theorem clean_headline : Clean diagnostic.headline := by
  have words : Unescaped "Error:" ∧ Unescaped " " ∧ Unescaped ": " := by decide
  have kind : Unescaped diagnostic.kind.name := by
    cases diagnostic.kind with
    | unreadable | locked | unbound => simp only [Kind.name]; decide
  simp [headline, words, kind, message]

include help text origin

theorem clean_reportRows : ∀ row ∈ diagnostic.reportRows source filename, Clean row := by
  have lines : ∀ line ∈ (diagnostic.excerpt source.toList).lines, '\x1b' ∉ line := by
    intro line member inside
    refine text ?_
    rw [← Text.flatten_splitLines source.toList]
    exact List.mem_flatten.mpr ⟨line, member, inside⟩
  have name : Unescaped (filename.getD defaultFilename) := by
    cases filename with
    | none => decide
    | some name => exact origin name rfl
  rw [reportRows, List.forall_mem_cons]
  refine ⟨clean_headline message, ?_⟩
  split
  · simp only [List.forall_mem_append, List.forall_mem_singleton]
    exact ⟨⟨⟨clean_openingRows name _, Excerpt.clean_rows lines message⟩,
      clean_noteRows help _⟩, clean_closingRow _⟩
  · simp

end Rows

/-- A report with paint is the report without, and escape sequences of which every other one
switches paint off.  This holds of any span, also one that ends before it starts or lies
outside of the text, and of a text of any number of lines. -/
theorem report_colored_is_painted {diagnostic : Diagnostic} {source : String}
    {filename : Option String} (message : Unescaped diagnostic.message)
    (help : ∀ text ∈ diagnostic.help, Unescaped text) (text : Unescaped source)
    (origin : ∀ name ∈ filename, Unescaped name) :
    IsPainted (diagnostic.report true source filename)
      (diagnostic.report false source filename) := by
  have painted :
      (diagnostic.reportRows source filename).flatten.flatMap Fragment.switches ≠ [] := by
    simp [reportRows, headline, Report.painted, Fragment.switches]
  exact isPainted_renderRows (clean_reportRows message help text origin) painted

theorem report_colored_is_painted_of_reversed_span :
    let diagnostic := Diagnostic.locked "x" ⟨6, 4⟩
    let source := "set\tx = 1\r\n"
    Unescaped diagnostic.message ∧ (∀ text ∈ diagnostic.help, Unescaped text) ∧ Unescaped source ∧
      IsPainted (diagnostic.report true source (some "a b.otter"))
        (diagnostic.report false source (some "a b.otter")) := by
  intro diagnostic source
  have message : Unescaped diagnostic.message := by decide
  have help : ∀ text ∈ diagnostic.help, Unescaped text := by decide
  have text : Unescaped source := by decide
  exact ⟨message, help, text, report_colored_is_painted message help text (by decide)⟩

end LineScript.Diagnostic
