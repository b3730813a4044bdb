import LineShell.Proofs.Slices

namespace LineShell

/-!
# Spaces between tokens

A token is the longest one at its place, so it is also a token on its own, and a
space behind it ends it as well as whatever stood there before.  So a line whose
tokens are written with single spaces between them has the same tokens.

The parser sees the kinds and the texts of tokens.  It copies their places into
commands and faults, but it compares places only to find the pieces of a path
behind `cd`.  So lines with the same tokens are read alike, apart from places, if
`cd` is not among the tokens.
-/

/-! ## Tokens on their own -/

theorem Token.Cursor.isWhole_of_mem_read {cursor : Cursor} {token : Token}
    (member : token ∈ cursor.read.tokens) (going : token.kind ≠ .endOfLine) :
    token.lexeme.IsWhole := by
  rcases isNext_of_mem_read member going with ⟨rest, next⟩
  exact scan?_of_isNext (next.of_front next.starts (List.prefix_refl _))

/-- The line that tokens make with a space between neighbours has the same
tokens. -/
theorem Token.Cursor.read_respaced {tokens : List Token}
    (whole : ∀ token ∈ tokens, token.lexeme.IsWhole) :
    (start (String.intercalate " " (tokens.map Token.text))).read.fault = none
      ∧ ∃ tokens' last,
        (start (String.intercalate " " (tokens.map Token.text))).read.tokens = tokens' ++ [last]
          ∧ last.kind = .endOfLine ∧ tokens'.map Token.lexeme = tokens.map Token.lexeme := by
  have spelled : Lexeme.spaced (tokens.map Token.lexeme)
      = String.intercalate " " (tokens.map Token.text) := by
    rw [Lexeme.spaced, List.map_map]
    rfl
  have wholeToo : ∀ lexeme ∈ tokens.map Token.lexeme, lexeme.IsWhole :=
    List.forall_mem_map.mpr whole
  rcases read_start_spaced wholeToo with ⟨lexemes, unfaulted⟩
  rw [spelled] at lexemes unfaulted
  rcases List.map_eq_append_iff.mp lexemes with ⟨tokens', ending, shape, same, isEnding⟩
  rcases List.map_eq_singleton_iff.mp isEnding with ⟨last, rfl, isLast⟩
  exact ⟨unfaulted, tokens', last, shape, congrArg Lexeme.kind isLast, same⟩

/-! ## Reading without places -/

/-- A command without its places. -/
def Command.unplaced (command : Command) : Command :=
  command.relocate fun _ => 0

def Fault.unplaced (fault : Fault) : Fault :=
  fault.relocate fun _ => 0

/-- The commands of a line, or its fault, without their places. -/
def Command.parseUnplaced (line : String) : Except Fault (List Command) :=
  match parseLine line with
  | .ok commands => .ok (commands.map unplaced)
  | .error fault => .error fault.unplaced

namespace Parser
namespace Pairing

/-- Two lines that are compared without their places, up to their ends. -/
def unplaced {last last' : Token} (ends : last.kind = .endOfLine)
    (ends' : last'.kind = .endOfLine) : Pairing where
  place := fun _ => 0
  place' := fun _ => 0
  tail := [last]
  tail' := [last']
  fault? := none
  fault'? := none
  ends := .terminator (isTerminator_of_ends ends) (isTerminator_of_ends ends') rfl

variable {last last' : Token} (ends : last.kind = .endOfLine) (ends' : last'.kind = .endOfLine)

theorem closed_unplaced : (unplaced ends ends').Closed :=
  .inl ⟨last, last', rfl, rfl, ends, ends', rfl, rfl⟩

/-- Tokens of the same kinds and texts are shared, as long as none of them asks
for places. -/
theorem stream_unplaced {tokens tokens' : List Token}
    (same : tokens.map Token.lexeme = tokens'.map Token.lexeme)
    (going : ∀ token ∈ tokens, token.kind ≠ .endOfLine)
    (plain : ∀ token ∈ tokens, token.text ≠ "cd") :
    (unplaced ends ends').Stream (tokens ++ [last]) (tokens' ++ [last']) := by
  induction tokens generalizing tokens' with
  | nil =>
      rw [List.map_eq_nil_iff.mp same.symm]
      exact .tail rfl rfl
  | cons token tokens ih =>
      rcases List.map_eq_cons_iff.mp same.symm with ⟨token', others', rfl, first, others⟩
      rcases List.forall_mem_cons.mp going with ⟨goes, goesOn⟩
      rcases List.forall_mem_cons.mp plain with ⟨isPlain, arePlain⟩
      have alike : (unplaced ends ends').Alike Token.relocate token token' := by
        rcases Token.Lexeme.mk.inj first with ⟨kind, text⟩
        rw [Alike, Token.relocate, Token.relocate, kind, text]
        rfl
      exact .token ⟨alike, fun asks => absurd asks isPlain⟩ goes
        (ih others.symm goesOn arePlain)

end Pairing
end Parser

namespace Command

/-- Lines with the same tokens are read alike, if no token asks for places. -/
theorem parseUnplaced_congr {line line' : String} {tokens tokens' : List Token}
    {last last' : Token}
    (whole : (Token.Cursor.start line).read.fault = none)
    (whole' : (Token.Cursor.start line').read.fault = none)
    (shape : (Token.Cursor.start line).read.tokens = tokens ++ [last])
    (shape' : (Token.Cursor.start line').read.tokens = tokens' ++ [last'])
    (ends : last.kind = .endOfLine) (ends' : last'.kind = .endOfLine)
    (same : tokens.map Token.lexeme = tokens'.map Token.lexeme)
    (going : ∀ token ∈ tokens, token.kind ≠ .endOfLine)
    (plain : ∀ token ∈ tokens, token.text ≠ "cd") :
    parseUnplaced line = parseUnplaced line' := by
  have stream := Parser.Pairing.stream_unplaced ends ends' same going plain
  rw [← shape, ← shape'] at stream
  rcases Parser.Pairing.start_cases stream whole whole'
    with ⟨state, state', begun, begun', stands⟩ | ⟨fault, fault', begun, begun', alike⟩
  · have related := Parser.Pairing.related_line (Parser.Pairing.closed_unplaced ends ends') stands
    cases ran : Parser.line state <;> cases ran' : Parser.line state' <;> rw [ran, ran'] at related
    · rw [parseUnplaced, parseUnplaced, parseLine_of_ok begun ran, parseLine_of_ok begun' ran']
      exact congrArg Except.ok related.1
    · cases related
    · cases related
    · rw [parseUnplaced, parseUnplaced, parseLine_of_error begun ran,
        parseLine_of_error begun' ran']
      exact congrArg Except.error related
  · rw [parseUnplaced, parseUnplaced, parseLine_of_fault begun, parseLine_of_fault begun']
    exact congrArg Except.error alike

/-- A line that can be cut into tokens may be written with single spaces between
its tokens.  It still has the same tokens, and if `cd` is not one of them it is
read alike, apart from places. -/
theorem parseLine_respaced {line : String}
    (whole : (Token.Cursor.start line).read.fault = none) :
    ∃ tokens last, (Token.Cursor.start line).read.tokens = tokens ++ [last]
      ∧ last.kind = .endOfLine ∧ (∀ token ∈ tokens, token.kind ≠ .endOfLine)
      ∧ let respaced := String.intercalate " " (tokens.map Token.text)
        (Token.Cursor.start respaced).read.fault = none
          ∧ (∃ tokens' last', (Token.Cursor.start respaced).read.tokens = tokens' ++ [last']
            ∧ last'.kind = .endOfLine ∧ tokens'.map Token.lexeme = tokens.map Token.lexeme)
          ∧ ((∀ token ∈ (Token.Cursor.start line).read.tokens, token.text ≠ "cd") ->
            parseUnplaced respaced = parseUnplaced line) := by
  have proper := Token.Cursor.read_endsProperly (Token.Cursor.start line)
  rw [whole] at proper
  rcases proper with ⟨tokens, last, shape, ends, going⟩
  have inLine : ∀ token ∈ tokens, token ∈ (Token.Cursor.start line).read.tokens :=
    fun token member => shape ▸ List.mem_append_left _ member
  rcases Token.Cursor.read_respaced fun token member =>
    Token.Cursor.isWhole_of_mem_read (inLine token member) (going token member)
    with ⟨whole', tokens', last', shape', ends', same⟩
  refine ⟨tokens, last, shape, ends, going, whole', ⟨tokens', last', shape', ends', same⟩, ?_⟩
  intro plain
  exact (parseUnplaced_congr whole whole' shape shape' ends ends' same.symm going
    fun token member => plain token (inLine token member)).symm

theorem parseLine_respaced_glued :
    let line := "x=5-!$y;echo\"a  b\"<<(-1) "
    let respaced := "x = 5 - ! $ y ; echo \"a  b\" << ( - 1 )"
    (Token.Cursor.start line).read.fault = none
      ∧ (∀ token ∈ (Token.Cursor.start line).read.tokens, token.text ≠ "cd")
      ∧ (Token.Cursor.start respaced).read.fault = none
      ∧ (parseUnplaced line).isOk = true ∧ parseUnplaced respaced = parseUnplaced line := by
  intro line respaced
  have whole : (Token.Cursor.start line).read.fault = none := by decide +kernel
  have plain : ∀ token ∈ (Token.Cursor.start line).read.tokens, token.text ≠ "cd" := by
    decide +kernel
  have texts : (Token.Cursor.start line).read.tokens.dropLast.map Token.text
      = ["x", "=", "5", "-", "!", "$", "y", ";", "echo", "\"a  b\"", "<<", "(", "-", "1", ")"] := by
    decide +kernel
  have joined : String.intercalate " " ["x", "=", "5", "-", "!", "$", "y", ";", "echo", "\"a  b\"",
      "<<", "(", "-", "1", ")"] = respaced := by
    decide
  have parsed : (parseUnplaced line).isOk = true := by decide +kernel
  rcases parseLine_respaced whole with ⟨tokens, last, shape, _, _, whole', _, alike⟩
  rw [shape, List.dropLast_concat] at texts
  rw [texts, joined] at whole' alike
  exact ⟨whole, plain, whole', parsed, alike plain⟩

end Command
end LineShell
