import LineScript.Session
import Mathlib.Data.List.DropRight

/-!
# Scripts and how their lines end

A script is read as what lies between its line feeds, less the carriage returns at the end of
each line.  So lines may end in a line feed alone or with a carriage return before it.  A
line feed more at the end of a script can add a blank line, which a session passes over.
-/

namespace LineScript

namespace Text

/-! ## Segments -/

/-- What lies between the line feeds of a text.  A line feed at the end of the text ends
the last segment and begins no other. -/
def segments (chars : List Char) : List (List Char) :=
  let parts := chars.splitOn '\n'
  if parts.getLast? = some [] then parts.dropLast else parts

theorem segments_nil : segments [] = [] := by
  simp [segments, List.splitOn_nil]

theorem segments_line_feed (rest : List Char) : segments ('\n' :: rest) = [] :: segments rest := by
  obtain ⟨part, parts, split⟩ := List.exists_cons_of_ne_nil (List.splitOn_ne_nil '\n' rest)
  simp only [segments, List.splitOn_cons_eq_if_modifyHead, beq_self_eq_true, if_true, split,
    List.getLast?_cons_cons, List.dropLast_cons_cons]
  split <;> rfl

theorem segments_cons_of_ne {c : Char} (other : c ≠ '\n') (rest : List Char) :
    segments (c :: rest) = (c :: (segments rest).headD []) :: (segments rest).tail := by
  obtain ⟨part, parts, split⟩ := List.exists_cons_of_ne_nil (List.splitOn_ne_nil '\n' rest)
  have differs : (c == '\n') = false := by simpa using other
  simp only [segments, List.splitOn_cons_eq_if_modifyHead, differs, split, Bool.false_eq_true,
    if_false, List.modifyHead_cons]
  cases parts with
  | nil => cases part <;> simp
  | cons next parts =>
      simp only [List.getLast?_cons_cons, List.dropLast_cons_cons]
      split <;> rfl

/-! ## Bare lines -/

theorem rdropWhile_cons {α : Type} (test : α → Bool) (item : α) (items : List α) :
    (item :: items).rdropWhile test =
      if items.rdropWhile test = [] ∧ test item then [] else item :: items.rdropWhile test := by
  induction items using List.reverseRecOn with
  | nil => simp [List.rdropWhile_singleton]
  | append_singleton items last ih =>
      rw [← List.cons_append, List.rdropWhile_concat, List.rdropWhile_concat, ih]
      split <;> simp

/-- The lines of a text without what ends them. -/
def bareLines (chars : List Char) : List (List Char) := (splitAfter '\n' chars).map stripLineEnd

/-- Put a character before the first of some bare lines, where it stays unless it ends that
line. -/
def putBefore (c : Char) (lines : List (List Char)) : List (List Char) :=
  (if lines.headD [] = [] ∧ isLineEnd c then [] else c :: lines.headD []) :: lines.tail

theorem bareLines_nil : bareLines [] = [] := rfl

theorem bareLines_line_feed (rest : List Char) : bareLines ('\n' :: rest) = [] :: bareLines rest := by
  rw [bareLines, splitAfter, if_pos rfl]
  rfl

theorem bareLines_cons_of_ne {c : Char} (other : c ≠ '\n') (rest : List Char) :
    bareLines (c :: rest) = putBefore c (bareLines rest) := by
  have strip (line : List Char) : stripLineEnd (c :: line) =
      if stripLineEnd line = [] ∧ isLineEnd c then [] else c :: stripLineEnd line :=
    rdropWhile_cons isLineEnd c line
  have nothing : stripLineEnd [] = [] := rfl
  rw [bareLines, bareLines, splitAfter, if_neg other]
  cases splitAfter '\n' rest <;> simp [putBefore, strip, nothing]

/-- The bare lines of a text are its segments without the carriage returns at their ends. -/
theorem bareLines_eq_segments (chars : List Char) :
    bareLines chars = (segments chars).map (·.rdropWhile (· == '\r')) := by
  induction chars with
  | nil => rw [bareLines_nil, segments_nil, List.map_nil]
  | cons c rest ih =>
      by_cases feed : c = '\n'
      · subst feed
        rw [bareLines_line_feed, segments_line_feed, ih, List.map_cons, List.rdropWhile_nil]
      · have ends : isLineEnd c = (c == '\r') := by simp [isLineEnd, feed]
        have head : ((segments rest).map (·.rdropWhile (· == '\r'))).headD [] =
            ((segments rest).headD []).rdropWhile (· == '\r') := by
          cases segments rest <;> simp
        rw [bareLines_cons_of_ne feed, segments_cons_of_ne feed, ih, putBefore, head, ends,
          List.map_cons, rdropWhile_cons, List.map_tail]

/-! ## Other line ends -/

/-- A text with a carriage return before every line feed. -/
def withReturns (text : String) : String :=
  String.ofList (text.toList.flatMap fun c => if c = '\n' then ['\r', '\n'] else [c])

theorem bareLines_withReturns (chars : List Char) :
    bareLines (chars.flatMap fun c => if c = '\n' then ['\r', '\n'] else [c]) =
      bareLines chars := by
  induction chars with
  | nil => rfl
  | cons c rest ih =>
      rw [List.flatMap_cons]
      split
      next feed =>
        subst feed
        rw [List.cons_append, List.singleton_append, bareLines_cons_of_ne (by decide),
          bareLines_line_feed, bareLines_line_feed, ih]
        rfl
      next other =>
        rw [List.singleton_append, bareLines_cons_of_ne other, bareLines_cons_of_ne other, ih]

/-- A line feed behind a text ends its last line, or is a line of its own. -/
theorem bareLines_concat_line_feed (chars : List Char) :
    bareLines (chars ++ ['\n']) = bareLines chars ∨
      bareLines (chars ++ ['\n']) = bareLines chars ++ [[]] := by
  induction chars with
  | nil => exact .inr rfl
  | cons c rest ih =>
      rw [List.cons_append]
      by_cases feed : c = '\n'
      · subst feed
        rw [bareLines_line_feed, bareLines_line_feed]
        exact ih.imp (congrArg _) (congrArg _)
      · rw [bareLines_cons_of_ne feed, bareLines_cons_of_ne feed]
        rcases ih with same | longer
        · exact .inl (by rw [same])
        · rw [longer]
          cases bareLines rest with
          | nil => exact .inl rfl
          | cons line lines => exact .inr rfl

end Text

open LineScript.Text

theorem Read.ofText_eq (text : String) :
    ofText text = (bareLines text.toList).map fun line => .line (String.ofList line) := by
  rw [ofText, bareLines, List.map_map]
  rfl

namespace Session

/-! ## A blank line at the end of the reads -/

/-- Two sessions that end in the same way and leave the same behind. -/
structure Run.SameEnd (one other : Run) : Prop where
  result : one.result = other.result
  scope : one.state.scope = other.state.scope
  console : one.console = other.console

theorem Run.SameEnd.refl (run : Run) : run.SameEnd run := ⟨rfl, rfl, rfl⟩

variable {text : String} (blank : Text.trim text = "")

include blank

theorem step_of_blank (config : Config) (state : State) :
    step config state (.line text) = .more ⟨{ state with linesRead := state.linesRead + 1 }, []⟩ := by
  have going : ¬ "" = stopWord := by decide
  simp only [step, blank, going, if_true, if_false]

theorem converse_of_blank (config : Config) (state : State) :
    converse config state [.line text] =
      let next := { state with linesRead := state.linesRead + 1 }
      ⟨[⟨next, []⟩, ⟨next, farewell config⟩], .ok .endOfInput⟩ := by
  simp only [converse, step_of_blank blank]

theorem result_converse_append_blank (config : Config) (state : State) (reads : List Read) :
    (converse config state (reads ++ [.line text])).result =
      (converse config state reads).result := by
  induction reads generalizing state with
  | nil =>
      rw [List.nil_append, converse_of_blank blank]
      rfl
  | cons read rest ih =>
      rw [List.cons_append, converse, converse]
      cases step config state read with
      | last turn result => rfl
      | more turn => exact ih turn.state

theorem play_append_blank (config : Config) (result : Except Failure Ending)
    (before state : State) (console : Console) (count : Nat) (reads : List Read) :
    (play result before console count (converse config state (reads ++ [.line text])).turns).SameEnd
      (play result before console count (converse config state reads).turns) := by
  induction reads generalizing before state console count with
  | nil =>
      rw [List.nil_append, converse_of_blank blank]
      simp only [converse, play, Console.writeAll]
      rcases console.writeAll (farewell config) with ⟨written, _ | _⟩
      · exact ⟨rfl, rfl, rfl⟩
      · exact ⟨rfl, rfl, rfl⟩
  | cons read rest ih =>
      rw [List.cons_append, converse, converse]
      cases step config state read with
      | last turn result => exact .refl _
      | more turn =>
          simp only [play]
          rcases console.writeAll turn.writes with ⟨written, _ | _⟩
          · exact .refl _
          · exact ih turn.state turn.state written (count + 1)

theorem run_append_blank (config : Config) (state : State) (console : Console)
    (reads : List Read) :
    (run config state console (reads ++ [.line text])).SameEnd
      (run config state console reads) := by
  rw [run, run]
  rcases console.writeAll (banner config) with ⟨written, _ | _⟩
  · exact .refl _
  · simp only [result_converse_append_blank blank]
    exact play_append_blank blank config _ state state written 0 reads

omit blank

/-! ## Scripts -/

/-- A script is read as the segments between its line feeds, without the carriage returns at
their ends.  Whether its lines end in a line feed alone or with a carriage return before it, a
session does the same, and so it does with a line feed more at the end. -/
theorem runScript_whatever_line_ends (script : String) :
    Read.ofText script = (segments script.toList).map
      (fun segment => .line (String.ofList (segment.rdropWhile (· == '\r')))) ∧
    ∀ (config : Config) (scope : Scope) (console : Console),
      runScript config scope console (withReturns script) =
        runScript config scope console script ∧
      (runScript config scope console (script ++ "\n")).SameEnd
        (runScript config scope console script) := by
  refine ⟨?_, fun config scope console => ⟨?_, ?_⟩⟩
  · rw [Read.ofText_eq, bareLines_eq_segments, List.map_map]
    rfl
  · have reads : Read.ofText (withReturns script) = Read.ofText script := by
      rw [Read.ofText_eq, Read.ofText_eq, withReturns, String.toList_ofList,
        bareLines_withReturns]
    rw [runScript, runScript, reads]
  · have spelled : (script ++ "\n").toList = script.toList ++ ['\n'] := by simp
    rw [runScript, runScript, Read.ofText_eq, spelled]
    rcases bareLines_concat_line_feed script.toList with same | longer
    · rw [same, ← Read.ofText_eq]
      exact .refl _
    · rw [longer, List.map_append, ← Read.ofText_eq]
      exact run_append_blank (by decide) _ _ _ _

end Session

end LineScript
