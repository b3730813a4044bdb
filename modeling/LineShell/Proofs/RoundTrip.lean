import LineShell.Parser.Line
import LineShell.Proofs.PhraseParsing
import LineShell.Question

namespace LineShell

/-!
# Reading back what was written

A phrase that is written behind the name of a variable and an equals sign is
read back as the assignment of its expression.  The one thing that can go wrong
is that the line nests too many levels, and that takes more than a hundred
operators and arrays.
-/

open Token (Lexeme)
open Steps

namespace Parser

/-- The parser stands before the lexemes that a line is read as. -/
theorem start_of_lexemes {line : String} {lexemes : List Lexeme}
    (tokens : (Token.Cursor.start line).read.tokens.map Token.lexeme = lexemes ++ [Lexeme.ending])
    (complete : (Token.Cursor.start line).read.fault = none) :
    ∃ state, start line = .ok state ∧ state.At (lexemes ++ [Lexeme.ending]) 0 := by
  cases shape : (Token.Cursor.start line).read.tokens with
  | nil =>
      rw [shape] at tokens
      exact absurd tokens.symm (List.append_ne_nil_of_right_ne_nil _ (List.cons_ne_nil _ _))
  | cons lookahead upcoming =>
      rw [shape] at tokens
      simp only [start, shape, complete]
      exact ⟨_, rfl, tokens, rfl, rfl, rfl⟩

theorem start_spaced {lexemes : List Lexeme} (whole : ∀ lexeme ∈ lexemes, lexeme.IsWhole) :
    ∃ state, start (Lexeme.spaced lexemes) = .ok state
      ∧ state.At (lexemes ++ [Lexeme.ending]) 0 := by
  rcases Token.Cursor.read_start_spaced whole with ⟨tokens, complete⟩
  exact start_of_lexemes tokens complete

def equals : Lexeme :=
  { kind := .equals, text := "=" }

section Assigning

variable {depth cap : Nat} {state : State}

/-- The assignment of a phrase to a variable, up to the span. -/
def Assigns (name : String) (value : Expr) (command : Command) : Prop :=
  ∃ span, command
    = { name, action := .assign, parameters := [.word name, .expression value], span }

theorem reaches_assign {lexemes : List Lexeme} (name : Token) (value : Expr)
    (stands : state.At lexemes depth) :
    Reaches (Assigns name.text value) lexemes depth cap (assign name value state) :=
  ⟨⟨_, rfl⟩, stands⟩

theorem reaches_assignment (name : Token) (phrase : Phrase)
    (stands : state.At (equals :: (phrase.lexemes .additive ++ [Lexeme.ending])) 0) :
    Reaches (Assigns name.text phrase.toExpr) [Lexeme.ending] 0 (phrase.cost .additive)
      (assignment name state) := by
  rcases phrase.lexemes_start .additive with ⟨first, others, shape, going⟩
  have kind : state.lookahead.kind = .equals := stands.lookahead.1
  rw [shape, List.cons_append] at stands
  simp only [assignment, get_bind, kind]
  refine reaches_discard (reaches_any (reaches_advance stands)) fun between there => ?_
  have goes : between.lookahead.kind.isTerminator = false := by
    rw [there.lookahead.1]
    revert going
    cases first.kind <;> decide
  simp only [get_bind, goes, Bool.false_eq_true, if_false]
  rw [← List.cons_append, ← shape] at there
  have reading := (readsEverywhere phrase .additive).1 (maxDepth + 1) Lexeme.ending [] 0 between
    (Nat.lt_succ_self _) (follows_of_plain (by decide)) there
  rw [Nat.zero_add] at reading
  refine reaches_bind reading fun value after same beyond => ?_
  subst same
  exact reaches_assign name _ beyond

theorem reaches_statement (name : BareWord) (phrase : Phrase)
    (stands : state.At ({ kind := .word, text := name.text } :: equals
      :: (phrase.lexemes .additive ++ [Lexeme.ending])) 0) :
    Reaches (Assigns name.text phrase.toExpr) [Lexeme.ending] 0 (phrase.cost .additive)
      (statement state) := by
  have kind : state.lookahead.kind = .word := stands.lookahead.1
  simp only [statement, get_bind, kind]
  refine reaches_bind (reaches_advance stands) fun token between eaten there => ?_
  have text : token.text = name.text := congrArg Lexeme.text eaten
  simp only [text, name.notBuiltin]
  rw [← text]
  exact reaches_assignment token phrase there

/-- A command that shows a phrase, up to the span. -/
def Echoes (value : Expr) (command : Command) : Prop :=
  ∃ span, command = { name := "echo", action := .echo, parameters := [.expression value], span }

def echo : Lexeme :=
  { kind := .word, text := "echo" }

theorem reaches_echoArguments (phrase : Phrase)
    (stands : state.At (phrase.lexemes .additive ++ [Lexeme.ending]) depth) :
    Reaches (· = [.expression phrase.toExpr]) [Lexeme.ending] depth
      (depth + phrase.cost .additive) (arguments expression .echo state) := by
  have reading := (readsEverywhere phrase .additive).1 (maxDepth + 1) Lexeme.ending [] depth state
    (by omega) (follows_of_plain (by decide)) stands
  refine reaches_bind reading fun value after same beyond => ?_
  subst same
  exact reaches_pure rfl beyond

theorem reaches_echo (phrase : Phrase)
    (stands : state.At (echo :: (phrase.lexemes .additive ++ [Lexeme.ending])) 0) :
    Reaches (Echoes phrase.toExpr) [Lexeme.ending] 0 (phrase.cost .additive + 1)
      (statement state) := by
  rcases exists_first (phrase.lexemes .additive) Lexeme.ending [] with ⟨first, others, shape⟩
  have kind : state.lookahead.kind = .word := stands.lookahead.1
  rw [shape] at stands
  simp only [statement, get_bind, kind]
  refine reaches_bind (reaches_advance stands) fun token between eaten there => ?_
  have text : token.text = "echo" := congrArg Lexeme.text eaten
  rw [← shape] at there
  have found : Builtin.find? "echo"
      = some { name := "echo", action := .echo, help? := some "prints the value to the log" } := by
    decide
  simp only [text, found, commandAfter]
  have reading : ∀ deeper, State.At (phrase.lexemes .additive ++ [Lexeme.ending]) (0 + 1) deeper ->
      Reaches (· = [.expression phrase.toExpr]) [Lexeme.ending] (0 + 1) (phrase.cost .additive + 1)
        (arguments expression .echo deeper) := by
    intro deeper standsDeeper
    rw [Nat.add_comm (phrase.cost .additive)]
    exact reaches_echoArguments phrase standsDeeper
  refine reaches_bind (reaches_nested reading there (Nat.succ_pos _)) ?_
  intro parameters after same beyond
  subst same
  exact ⟨⟨_, rfl⟩, beyond⟩

/-- Behind the end of a line is the end of the line. -/
theorem reaches_ending (stands : state.At [Lexeme.ending] depth) :
    Reaches (fun _ => True) [Lexeme.ending] depth cap (eat .endOfLine state) := by
  rcases List.cons.inj stands.tokens with ⟨last, none⟩
  rw [eat, eatAny_of_mem (by rw [stands.lookahead.1]; decide),
    advance_of_end (List.map_eq_nil_iff.mp none) stands.whole]
  exact ⟨trivial, rfl, stands.depth_eq, stands.whole, stands.unwarned⟩

/-- A line of one statement is read as that statement. -/
theorem reaches_line {meets : Command -> Prop} (single : Reaches meets [Lexeme.ending] depth cap
      (statement state)) :
    Reaches (fun commands => ∃ command, commands = [command] ∧ meets command) [Lexeme.ending]
      depth cap (line state) := by
  rw [line_eq]
  refine reaches_bind single fun command after met there => ?_
  have ends : after.lookahead.kind = .endOfLine := there.lookahead.1
  have terminated : expectTerminator after = .ok () after := by
    simp [expectTerminator, ends, Token.Kind.isTerminator]
  rw [bind_of_ok terminated, lineAfter_of_stop (by rw [ends]; decide)]
  exact reaches_discard (reaches_ending there) fun _ done => reaches_pure ⟨command, rfl, met⟩ done

end Assigning

/-- A line that is made of the lexemes that show a phrase is read as the command
that shows it, unless the phrase is nested too deeply. -/
theorem line_echo {line : String} (phrase : Phrase)
    (tokens : (Token.Cursor.start line).read.tokens.map Token.lexeme
      = echo :: phrase.lexemes .additive ++ [Lexeme.ending])
    (complete : (Token.Cursor.start line).read.fault = none)
    (shallow : phrase.cost .additive < maxDepth) :
    ∃ state command after, start line = .ok state ∧ Parser.line state = .ok [command] after
      ∧ Echoes phrase.toExpr command ∧ after.warnings = [] := by
  rcases start_of_lexemes tokens complete with ⟨state, begun, stands⟩
  have reached := reaches_line (reaches_echo phrase stands)
  cases ran : Parser.line state with
  | ok commands after =>
      rw [ran] at reached
      rcases reached with ⟨⟨command, rfl, echoes⟩, there⟩
      exact ⟨state, command, after, begun, ran, echoes, there.unwarned⟩
  | error fault after =>
      rw [ran] at reached
      exact absurd reached.2 (Nat.not_lt.mpr shallow)

/-- The line that shows a text is read without a warning. -/
theorem line_echoLine (text : String) :
    ∃ state span after, start (echoLine text) = .ok state
      ∧ line state = .ok [{ name := "echo", action := .echo, span
                            parameters := [.expression (.text text)] }] after
      ∧ after.warnings = [] := by
  have whole : ∀ lexeme ∈ echo :: (Phrase.text text).lexemes .additive, lexeme.IsWhole := by
    intro lexeme member
    rcases List.mem_cons.mp member with rfl | inside
    · rfl
    · exact (Phrase.text text).lexemes_isWhole _ lexeme inside
  have spelled : Lexeme.spaced (echo :: (Phrase.text text).lexemes .additive) = echoLine text :=
    String.intercalate_cons_cons ..
  rcases Token.Cursor.read_start_spaced whole with ⟨tokens, complete⟩
  rw [spelled] at tokens complete
  rcases line_echo (.text text) tokens complete (of_decide_eq_true rfl) with
    ⟨state, _, after, begun, ran, ⟨span, rfl⟩, unwarned⟩
  exact ⟨state, span, after, begun, ran, unwarned⟩

end Parser

namespace Command

/-- A line of lexemes that are read as one statement is read as that
statement, or nested too deeply. -/
theorem parseLine_spaced {lexemes : List Lexeme} {meets : Command -> Prop} {cap : Nat}
    (whole : ∀ lexeme ∈ lexemes, lexeme.IsWhole)
    (reads : ∀ state, Parser.State.At (lexemes ++ [Lexeme.ending]) 0 state ->
      Parser.Reaches meets [Lexeme.ending] 0 cap (Parser.statement state)) :
    (∃ command, parseLine (Lexeme.spaced lexemes) = .ok [command] ∧ meets command)
      ∨ ((∃ offset, parseLine (Lexeme.spaced lexemes) = .error (.grammatical .tooDeep offset))
        ∧ Parser.maxDepth < cap) := by
  rcases Parser.start_spaced whole with ⟨state, begun, stands⟩
  have reached := Parser.reaches_line (reads state stands)
  cases ran : Parser.line state with
  | ok commands after =>
      rw [ran] at reached
      rcases reached with ⟨⟨command, rfl, met⟩, -⟩
      exact Or.inl ⟨command, parseLine_of_ok begun ran, met⟩
  | error fault after =>
      rw [ran] at reached
      rcases reached with ⟨⟨offset, rfl⟩, full⟩
      exact Or.inr ⟨⟨offset, parseLine_of_error begun ran⟩, full⟩

theorem lexemes_ne_nil (phrase : Phrase) : phrase.lexemes .additive ≠ [] := by
  rcases phrase.lexemes_start .additive with ⟨first, others, shape, -⟩
  rw [shape]
  exact List.cons_ne_nil _ _

/-- An assignment of a phrase, as it is written. -/
theorem spaced_assignment (name : String) (phrase : Phrase) :
    Lexeme.spaced ({ kind := .word, text := name } :: Parser.equals :: phrase.lexemes .additive)
      = name ++ " = " ++ phrase.render := by
  apply String.toList_inj.mp
  rw [Lexeme.toList_spaced_cons _ (List.cons_ne_nil _ _),
    Lexeme.toList_spaced_cons _ (lexemes_ne_nil phrase)]
  simp [Phrase.render, Parser.equals]

/-- What the line that assigns a phrase to a variable is read as. -/
theorem parseLine_assignment (name : BareWord) (phrase : Phrase) :
    (∃ command, parseLine (name.text ++ " = " ++ phrase.render) = .ok [command]
        ∧ Parser.Assigns name.text phrase.toExpr command)
      ∨ ((∃ offset, parseLine (name.text ++ " = " ++ phrase.render)
          = .error (.grammatical .tooDeep offset))
        ∧ Parser.maxDepth < phrase.cost .additive) := by
  have whole : ∀ lexeme ∈ ({ kind := .word, text := name.text } : Lexeme) :: Parser.equals
      :: phrase.lexemes .additive, lexeme.IsWhole := by
    intro lexeme member
    simp only [List.mem_cons] at member
    rcases member with rfl | rfl | inside
    · have scanned := Token.scan?_of_spellsWord name.spelled
      rw [name.kind] at scanned
      exact scanned
    · rfl
    · exact phrase.lexemes_isWhole _ lexeme inside
  rw [← spaced_assignment]
  exact parseLine_spaced whole fun _ stands => Parser.reaches_statement name phrase stands

/-- The line that shows a text shows that text. -/
theorem parseLine_echoLine (text : String) :
    ∃ span, parseLine (echoLine text)
      = .ok [{ name := "echo", action := .echo, span
               parameters := [.expression (.text text)] }] := by
  rcases Parser.line_echoLine text with ⟨state, span, after, begun, ran, _⟩
  exact ⟨span, parseLine_of_ok begun ran⟩

/-- Reading a line that assigns a phrase gives the assignment of its expression,
unless the line is nested too deeply, which takes more than a hundred operators
and arrays. -/
theorem parseLine_render (phrase : Phrase) :
    ((∃ span, parseLine ("x = " ++ phrase.render)
          = .ok [{ name := "x", action := .assign
                   parameters := [.word "x", .expression phrase.toExpr], span }])
        ∨ ∃ misfit offset, parseLine ("x = " ++ phrase.render)
            = .error (.grammatical misfit offset)
          ∧ misfit.message = "Expression is nested too deeply")
      ∧ (phrase.nodes ≤ 100 -> ∃ span, parseLine ("x = " ++ phrase.render)
          = .ok [{ name := "x", action := .assign
                   parameters := [.word "x", .expression phrase.toExpr], span }]) := by
  have spelled : ("x" : String) ++ " = " = "x = " := by decide
  have read := parseLine_assignment ⟨"x", by decide, by decide, by decide⟩ phrase
  simp only [spelled] at read
  rcases read with ⟨command, parsed, span, rfl⟩ | ⟨⟨offset, failed⟩, full⟩
  · exact ⟨Or.inl ⟨span, parsed⟩, fun _ => ⟨span, parsed⟩⟩
  · refine ⟨Or.inr ⟨_, offset, failed, rfl⟩, fun few => ?_⟩
    have levels := phrase.cost_le_nodes .additive
    rw [Parser.maxDepth] at full
    omega

theorem parseLine_render_mixed :
    let difference : Phrase :=
      .binary .subtract (.step .increment rfl .after ⟨"a", by decide⟩) (.number ⟨"2", by decide⟩)
    let phrase : Phrase :=
      .binary .multiply (.unary .negate rfl difference) (.array [.text "b", .boolean true])
    phrase.nodes ≤ 100
      ∧ phrase.render = "- ( $ a ++ - 2 ) * [ \"b\" , true ]"
      ∧ ∃ span, parseLine ("x = " ++ phrase.render)
          = .ok [{ name := "x", action := .assign
                   parameters := [.word "x", .expression phrase.toExpr], span }] :=
  ⟨by decide, by decide +kernel, (parseLine_render _).2 (by decide)⟩

end Command
end LineShell
