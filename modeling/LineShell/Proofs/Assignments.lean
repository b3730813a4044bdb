import LineShell.Proofs.Agreement
import LineShell.Proofs.Gluing
import LineShell.Proofs.Openings

namespace LineShell

/-!
# Three ways to assign

A variable can be given a value by its name, by its name behind a dollar sign, and
by a command.  The three lines differ in what stands before the value: the value
itself is read as the same expression, at its own place, and what is done with it
does not depend on places.  The command reads its value one level deeper, so what
it can read the other two can read as well.
-/

open Steps

/-! ## What stands before a value -/

namespace Token

def equalsLexeme : Lexeme :=
  { kind := .equals, text := "=" }

theorem equalsLexeme_isWhole : equalsLexeme.IsWhole := rfl

def wordLexeme (text : String) : Lexeme :=
  { kind := .word, text }

namespace Cursor

variable {name : String} (isWord : (wordLexeme name).IsWhole)
include isWord

/-- The name of a variable and an equals sign. -/
theorem leads_equals : Leads (name ++ " = ") [wordLexeme name, equalsLexeme] := by
  have sign : Leads "= " [equalsLexeme] := leads_nothing.behindSpaced equalsLexeme_isWhole
  exact sign.behindSpaced isWord

/-- The same behind a dollar sign. -/
theorem leads_marked :
    Leads ("$" ++ name ++ " = ")
      [{ kind := .dollar, text := "$" }, wordLexeme name, equalsLexeme] := by
  rw [String.append_assoc]
  exact (leads_equals isWord).behindToken fun more => scan?_dollar _

/-- The command that sets a variable, and the name of the variable. -/
theorem leads_set :
    Leads ("stack set " ++ name ++ " ")
      [wordLexeme "stack", wordLexeme "set", wordLexeme name] := by
  have isStack : (wordLexeme "stack").IsWhole := rfl
  have isVerb : (wordLexeme "set").IsWhole := rfl
  have named : Leads (name ++ " ") [wordLexeme name] := leads_nothing.behindSpaced isWord
  have spelled : "stack set " ++ name ++ " "
      = "stack" ++ (" " ++ ("set" ++ (" " ++ (name ++ " ")))) :=
    String.toList_injective (by simp)
  rw [spelled]
  exact (named.behindSpaced isVerb).behindSpaced isStack

end Cursor
end Token

namespace Parser

/-! ## Values that are assigned -/

/-- The command that assigns a value to a variable, which may be changed first. -/
def writing (name : String) (change : Expr -> Expr) (start : Nat) (value : Expr) (stop : Nat) :
    Command :=
  { name, action := .assign, parameters := [.word name, .expression (change value)]
    span := { start, stop } }

/-- The command that sets a variable to a value. -/
def setting (name : String) (start : Nat) (value : Expr) (stop : Nat) : Command :=
  { name := "stack", action := .stack
    parameters := [.word "set", .word name, .expression value], span := { start, stop } }

section Statements

variable {state between : State} {name sign next : Token} {rest : List Token}

theorem assignment_of_value (isEquals : sign.kind = .equals)
    (tokens : state.tokens = sign :: next :: rest) (going : next.kind.isTerminator = false) :
    assignment name state
      = (expression >>= fun value => assign name value)
        (state.behind next rest sign.span.stop) := by
  have ahead : state.lookahead = sign := (List.cons.inj tokens).1
  have goes : ¬(state.behind next rest sign.span.stop).lookahead.kind.isTerminator = true := by
    rw [Bool.not_eq_true]
    exact going
  simp only [assignment, get_bind, ahead, isEquals]
  rw [discard_bind, bind_of_ok (advance_of_tokens tokens), get_bind]
  exact congrFun (if_neg goes) _

theorem readsValue_of_assign {change : Expr -> Expr}
    (same : statement state
      = (expression >>= fun value => assign name (change value)) between) :
    ReadsValue (writing name.text change name.span.start) 0 state between where
  value := by
    intro value after ran
    rw [same, bind_of_ok ran]
    rfl
  fault := by
    intro fault after failed
    exact ⟨after, by rw [same, bind_of_error failed]⟩

theorem stackArguments_of_set {verb : Token} (isVerb : verb.lexeme = Token.wordLexeme "set")
    (isName : name.kind = .word) (tokens : state.tokens = verb :: name :: next :: rest) :
    stackArguments expression state
      = (expression >>= fun value =>
          pure [.word "set", .word name.text, .expression value])
        (state.behind next rest name.span.stop) := by
  rcases Token.Lexeme.mk.inj isVerb with ⟨verbKind, verbText⟩
  have ahead : state.lookahead = verb := (List.cons.inj tokens).1
  have eaten : eat .word state
      = .ok verb (state.behind name (next :: rest) verb.span.stop) := by
    rw [eat, eatAny_of_mem (List.mem_singleton.mpr (ahead ▸ verbKind))]
    exact advance_of_tokens tokens
  have named : stackVariable (state.behind name (next :: rest) verb.span.stop)
      = .ok name.text (state.behind next rest name.span.stop) := by
    have here : (state.behind name (next :: rest) verb.span.stop).lookahead.kind = .word := isName
    have noDollar : (state.behind name (next :: rest) verb.span.stop).lookahead.kind ≠ .dollar := by
      rw [here]
      exact Token.Kind.noConfusion
    have eatenName : eat .word (state.behind name (next :: rest) verb.span.stop)
        = .ok name (state.behind next rest name.span.stop) := by
      rw [eat, eatAny_of_mem (List.mem_singleton.mpr here)]
      exact advance_of_tokens rfl
    rw [stackVariable, get_bind]
    simp only [noDollar, if_false]
    exact bind_of_ok eatenName _
  rw [stackArguments, bind_of_ok eaten]
  simp only [verbText, if_true]
  rw [bind_of_ok named]

end Statements

/-! ## The three lines -/

section Lines

variable {name text : String} (isWord : (Token.wordLexeme name).IsWhole)
  (whole : (Token.Cursor.start text).read.fault = none)
include isWord whole

theorem introduces_equals (free : name ∉ Builtin.names) (goes : Token.Cursor.Goes text) :
    ∃ start, Introduces (name ++ " = ") 0 (writing name id start) text := by
  rcases exists_opened (Token.Cursor.leads_equals isWord) whole with
    ⟨state, front, next, rest, begun, lexemes, tokens, going, before⟩
  rcases List.map_eq_cons_iff.mp lexemes with ⟨word, _, rfl, isName, more⟩
  rcases List.map_eq_singleton_iff.mp more with ⟨sign, rfl, isSign⟩
  rcases Token.Lexeme.mk.inj isName with ⟨kind, rfl⟩
  have isEquals : sign.kind = .equals := congrArg Token.Lexeme.kind isSign
  refine ⟨word.span.start, state, _, begun, before sign.span.stop, readsValue_of_assign ?_⟩
  rw [opens_name kind (Builtin.find?_eq_none free) state sign (next :: rest) tokens]
  exact assignment_of_value isEquals rfl (going goes)

theorem introduces_marked (goes : Token.Cursor.Goes text) :
    ∃ start, Introduces ("$" ++ name ++ " = ") 0 (writing name id start) text := by
  rcases exists_opened (Token.Cursor.leads_marked isWord) whole with
    ⟨state, front, next, rest, begun, lexemes, tokens, going, before⟩
  rcases List.map_eq_cons_iff.mp lexemes with ⟨dollar, _, rfl, isDollar, more⟩
  rcases List.map_eq_cons_iff.mp more with ⟨word, _, rfl, isName, more⟩
  rcases List.map_eq_singleton_iff.mp more with ⟨sign, rfl, isSign⟩
  rcases Token.Lexeme.mk.inj isName with ⟨kind, rfl⟩
  have isMark : dollar.kind = .dollar := congrArg Token.Lexeme.kind isDollar
  have isEquals : sign.kind = .equals := congrArg Token.Lexeme.kind isSign
  refine ⟨word.span.start, state, _, begun, before sign.span.stop, readsValue_of_assign ?_⟩
  rw [opens_mark kind isMark state sign (next :: rest) tokens]
  exact assignment_of_value isEquals rfl (going goes)

theorem introduces_set :
    ∃ start, Introduces ("stack set " ++ name ++ " ") 1 (setting name start) text := by
  rcases exists_opened (Token.Cursor.leads_set isWord) whole with
    ⟨state, front, next, rest, begun, lexemes, tokens, _, before⟩
  rcases List.map_eq_cons_iff.mp lexemes with ⟨stack, _, rfl, isStack, more⟩
  rcases List.map_eq_cons_iff.mp more with ⟨verb, _, rfl, isVerb, more⟩
  rcases List.map_eq_singleton_iff.mp more with ⟨word, rfl, isName⟩
  rcases Token.Lexeme.mk.inj isName with ⟨kind, rfl⟩
  rcases Token.Lexeme.mk.inj isStack with ⟨stackKind, stackText⟩
  obtain ⟨builtin, found, action⟩ : ∃ builtin, Builtin.find? "stack" = some builtin
      ∧ builtin.action = .stack := ⟨_, rfl, rfl⟩
  rw [← show stack.text = "stack" from stackText] at found
  let called : State := state.behind verb (word :: next :: rest) stack.span.stop
  let entered : State := { state.behind next rest word.span.stop with depth := called.depth + 1 }
  have stated : statement state = commandAfter expression builtin stack called :=
    opens_call stackKind found state verb (word :: next :: rest) tokens
  have room : called.depth + 1 ≤ maxDepth := by
    rw [show called.depth = 0 from (before word.span.stop).depth_eq]
    decide
  have reads : arguments expression builtin.action { called with depth := called.depth + 1 }
      = (expression >>= fun value => pure [.word "set", .word word.text, .expression value])
        entered := by
    rw [action]
    exact stackArguments_of_set isVerb kind rfl
  refine ⟨stack.span.start, state, entered, begun,
    { before word.span.stop with
      depth_eq := congrArg (· + 1) (before word.span.stop).depth_eq }, ?_, ?_⟩
  · intro value after ran
    rw [bind_of_ok ran] at reads
    have ranNested := nested_of_ok room reads
    rw [stated, commandAfter, bind_of_ok ranNested, action,
      show stack.text = "stack" from stackText]
    rfl
  · intro fault after failed
    rw [bind_of_error failed] at reads
    have failedNested := nested_of_error room reads
    exact ⟨after, by rw [stated, commandAfter, bind_of_error failedNested]⟩

end Lines
end Parser

/-! ## What assigning does -/

def Expr.unplaced (expression : Expr) : Expr :=
  expression.relocate fun _ => 0

theorem Expr.unplaced_of_moved {value value' : Expr} {distance distance' : Nat}
    (same : value.relocate (· + distance) = value'.relocate (· + distance')) :
    value.unplaced = value'.unplaced := by
  have forgotten := congrArg Expr.unplaced same
  rw [unplaced, unplaced, relocate_relocate, relocate_relocate] at forgotten
  exact forgotten

theorem Bindings.contains_set (bindings : Bindings) (name : String) (value : Value) :
    (bindings.set name value).contains name = !value.isUnset := by
  rw [set, contains]
  cases unset : value.isUnset with
  | true =>
      simp only [if_true, lookup_filter_ne]
      rfl
  | false =>
      simp only [Bool.false_eq_true, if_false, lookup_put, if_true]
      rfl

namespace SessionM

theorem execute_assign {command : Command} {name : String} {value : Expr}
    (assigns : command.action = .assign)
    (parameters : command.parameters = [.word name, .expression value]) (piping : Bool) :
    execute piping command = evaluate value >>= store name := by
  rcases command with ⟨_, _, _, _⟩
  subst assigns parameters
  rw [execute, executeWith]
  simp only [evaluateArgument]
  rfl

theorem execute_writing (piping : Bool) (name : String) (start : Nat) (value : Expr) (stop : Nat) :
    execute piping (Parser.writing name id start value stop) = evaluate value >>= store name :=
  execute_assign rfl rfl piping

theorem execute_setting (piping : Bool) (name : String) (start : Nat) (value : Expr) (stop : Nat) :
    execute piping (Parser.setting name start value stop) = evaluate value >>= store name := by
  rw [execute, Parser.setting, executeWith]
  simp only [evaluateArgument]
  rfl

/-- Places aside, equal expressions have equal values. -/
theorem evaluate_of_unplaced {value value' : Expr} (same : value.unplaced = value'.unplaced) :
    evaluate value = evaluate value' := by
  have evaluated := congrArg evaluate same
  rw [Expr.unplaced, Expr.unplaced, evaluate, evaluate, evaluateWith_relocate,
    evaluateWith_relocate] at evaluated
  exact evaluated

end SessionM

namespace Command

/-- A variable is assigned alike by its name, by its name behind a dollar sign and
by the command.  Whatever value the command can be given, the other two lines have
the same value, and all three do the same in every session: what the value comes to
is stored and handed back, where the empty text removes the variable, and if the
value fails then nothing is stored. -/
theorem assignments_agree {name text : String} {command : Command}
    (isWord : (Token.wordLexeme name).IsWhole) (free : name ∉ Builtin.names)
    (parsed : parseLine ("stack set " ++ name ++ " " ++ text) = .ok [command]) :
    ∃ value plain plainValue marked markedValue,
      command.action = .stack
        ∧ command.parameters = [.word "set", .word name, .expression value]
        ∧ parseLine (name ++ " = " ++ text) = .ok [plain] ∧ plain.action = .assign
        ∧ plain.parameters = [.word name, .expression plainValue]
        ∧ plainValue.unplaced = value.unplaced
        ∧ parseLine ("$" ++ name ++ " = " ++ text) = .ok [marked] ∧ marked.action = .assign
        ∧ marked.parameters = [.word name, .expression markedValue]
        ∧ markedValue.unplaced = value.unplaced
        ∧ ∀ piping session,
          SessionM.execute piping plain session = SessionM.execute piping command session
            ∧ SessionM.execute piping marked session = SessionM.execute piping command session
            ∧ (∀ result after, SessionM.evaluate value session = .ok result after ->
              ∃ final, SessionM.execute piping command session = .ok (.value result) final
                ∧ final = { after with bindings := after.bindings.set name result }
                ∧ final.bindings.get name = result
                ∧ final.bindings.contains name = !result.isUnset)
            ∧ ∀ fault after, SessionM.evaluate value session = .error fault after ->
              SessionM.execute piping command session = .error fault after := by
  have whole := Parser.whole_of_parsed (Token.Cursor.leads_set isWord) parsed
  rcases Parser.introduces_set isWord whole with ⟨start, sets⟩
  have goes := sets.goes_of_parsed parsed
  rcases Parser.introduces_equals isWord whole free goes with ⟨startPlain, assigns⟩
  rcases Parser.introduces_marked isWord whole goes with ⟨startMarked, marks⟩
  rcases sets.parseLine_elsewhere assigns (Nat.zero_le 1) whole parsed with
    ⟨value, stop, plainValue, plainStop, rfl, parsedPlain, samePlain⟩
  rcases sets.parseLine_elsewhere marks (Nat.zero_le 1) whole parsed with
    ⟨again, stopAgain, markedValue, markedStop, isAgain, parsedMarked, sameMarked⟩
  obtain rfl : value = again := by
    have parameters := congrArg Command.parameters isAgain
    simp only [Parser.setting, List.cons.injEq, Argument.expression.injEq] at parameters
    exact parameters.2.2.1
  have plainAlike := (Expr.unplaced_of_moved samePlain).symm
  have markedAlike := (Expr.unplaced_of_moved sameMarked).symm
  refine ⟨value, _, plainValue, _, markedValue, rfl, rfl, parsedPlain, rfl, rfl, plainAlike,
    parsedMarked, rfl, rfl, markedAlike, ?_⟩
  intro piping session
  rw [SessionM.execute_writing, SessionM.execute_writing, SessionM.execute_setting,
    SessionM.evaluate_of_unplaced plainAlike, SessionM.evaluate_of_unplaced markedAlike]
  refine ⟨rfl, rfl, ?_, ?_⟩
  · intro result after evaluated
    rw [bind_of_ok evaluated]
    refine ⟨_, rfl, rfl, ?_, Bindings.contains_set ..⟩
    rw [Bindings.get_set, if_pos rfl]
  · intro fault after failed
    rw [bind_of_error failed]

theorem assignments_agree_nested :
    let text := "-$y++ + [echo $y, (7)]; /etc"
    (Token.wordLexeme "x").IsWhole ∧ "x" ∉ Builtin.names
      ∧ ∃ command plain marked,
        parseLine ("stack set " ++ "x" ++ " " ++ text) = .ok [command]
          ∧ parseLine ("x" ++ " = " ++ text) = .ok [plain]
          ∧ parseLine ("$" ++ "x" ++ " = " ++ text) = .ok [marked]
          ∧ ∀ piping session,
            SessionM.execute piping plain session = SessionM.execute piping command session
              ∧ SessionM.execute piping marked session
                = SessionM.execute piping command session := by
  intro text
  have isWord : (Token.wordLexeme "x").IsWhole := rfl
  have free : "x" ∉ Builtin.names := by decide
  have single : (parseLine ("stack set " ++ "x" ++ " " ++ text)).toOption.map List.length
      = some 1 := by decide +kernel
  rcases exists_single single with ⟨command, parsed⟩
  rcases assignments_agree isWord free parsed with
    ⟨_, plain, _, marked, _, _, _, parsedPlain, _, _, _, parsedMarked, _, _, _, executed⟩
  exact ⟨isWord, free, command, plain, marked, parsed, parsedPlain, parsedMarked,
    fun piping session => ⟨(executed piping session).1, (executed piping session).2.1⟩⟩

end Command
end LineShell
