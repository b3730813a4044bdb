import LineShell.Proofs.LongestMatch
import LineShell.Proofs.Suspension

namespace LineShell

/-!
# Texts are shown as they are

An answer shows its texts by running lines that show them.  Such a line holds
the text between quotes, so it is cut into tokens, parsed and evaluated like a
line that was typed, and what comes out is the text that went in, whatever its
characters are.

Behind it stands that quoting and reading fit together.  A quoted text is one
token, and every token between quotes is made of pieces that can be resolved
one by one, so that no backslash is ever left over.
-/

open Steps
open scoped Computability

/-! ## Resolving backslashes -/

namespace Text
namespace Quoted

/-- Whether resolving backslashes comes to one that has no character after
it. -/
def dangles : List Char -> Bool
  | [] => false
  | char :: rest =>
      if char = '\\' then
        match rest with
        | [] => true
        | _ :: rest => dangles rest
      else dangles rest

/-- Between the quotes of a token every backslash has a character after it. -/
theorem dangles_of_pieces {body : List Char} (pieces : body ∈ Token.quotedPiece∗) :
    dangles body = false := by
  rcases Language.mem_kstar.mp pieces with ⟨list, rfl, all⟩
  clear pieces
  induction list with
  | nil => rfl
  | cons piece list ih =>
      rcases List.forall_mem_cons.mp all with ⟨first, others⟩
      rw [List.flatten_cons]
      rcases first with ⟨char, ⟨_, noBackslash⟩, rfl⟩ | escape
      · rw [List.singleton_append, dangles.eq_def]
        simp only [noBackslash, if_false]
        exact ih others
      · rcases Token.mem_fixed_mul.mp escape with ⟨_, ⟨escaped, _, rfl⟩, rfl⟩
        exact ih others

theorem length_unescape_le (chars : List Char) : (unescape chars).length ≤ chars.length := by
  fun_induction unescape chars with
  | case1 => exact Nat.le_refl _
  | case2 => exact Nat.le_refl _
  | case3 escaped rest ih => exact Nat.le_succ_of_le (Nat.succ_le_succ ih)
  | case4 char rest _ ih => exact Nat.succ_le_succ ih

/-- A text in quotes is longer than what it stands for. -/
theorem decode_ne_self {text : String} {body : List Char}
    (quoted : text.toList = '"' :: (body ++ ['"'])) : decode text ≠ text := by
  intro same
  rw [decode, quoted, inner?_quoted] at same
  have lengths := congrArg List.length (congrArg String.toList same)
  have shorter := length_unescape_le body
  rw [quoted, String.toList_ofList] at lengths
  simp only [List.length_cons, List.length_append, List.length_nil] at lengths
  omega

end Quoted
end Text

/-! ## Tokens between quotes -/

namespace Token
namespace Cursor

theorem quoted_of_mem_read {cursor : Cursor} {token : Token} (member : token ∈ cursor.read.tokens)
    (string : token.kind = .string) :
    ∃ body ∈ quotedPiece∗, token.text.toList = '"' :: (body ++ ['"']) := by
  have going : token.kind ≠ .endOfLine := by
    rw [string]
    decide
  rcases isNext_of_mem_read member going with ⟨_, next⟩
  have spelled := next.mem_pattern
  rw [string] at spelled
  exact mem_string.mp spelled

/-- A quoted text is one token. -/
theorem read_encode (text : String) :
    ∃ quoted ending, (start (Text.Quoted.encode text)).read.tokens = [quoted, ending]
      ∧ (start (Text.Quoted.encode text)).read.fault = none
      ∧ quoted.kind = .string ∧ quoted.text = Text.Quoted.encode text
      ∧ ending.kind = .endOfLine := by
  let lexeme : Lexeme := { kind := .string, text := Text.Quoted.encode text }
  have whole : ∀ other ∈ [lexeme], other.IsWhole :=
    List.forall_mem_singleton.mpr (scan?_encode text)
  have spelled : Lexeme.spaced [lexeme] = Text.Quoted.encode text := String.intercalate_singleton
  rcases read_start_spaced whole with ⟨tokens, complete⟩
  rw [spelled] at tokens complete
  rcases List.map_eq_cons_iff.mp tokens with ⟨quoted, others, shape, first, rest⟩
  rcases List.map_eq_singleton_iff.mp rest with ⟨ending, rfl, last⟩
  exact ⟨quoted, ending, shape, complete, congrArg Lexeme.kind first, congrArg Lexeme.text first,
    congrArg Lexeme.kind last⟩

end Cursor
end Token

/-! ## Lines that show a text -/

namespace Journal

def tell (journal : Journal) (messages : List String) : Journal :=
  { journal with
    entries := journal.entries ++ (messages.map fun message => Entry.mk .info message).toArray }

theorem tell_nil (journal : Journal) : journal.tell [] = journal := by
  simp [tell]

theorem tell_singleton (journal : Journal) (message : String) :
    journal.tell [message] = journal.add .info message := by
  simp [tell, add]

theorem tell_tell (journal : Journal) (messages others : List String) :
    (journal.tell messages).tell others = journal.tell (messages ++ others) := by
  simp [tell]

end Journal

namespace Session

def tell (session : Session) (messages : List String) : Session :=
  { session with journal := session.journal.tell messages }

theorem tell_nil (session : Session) : session.tell [] = session := by
  rw [tell, Journal.tell_nil]

theorem tell_singleton (session : Session) (message : String) :
    session.tell [message] = session.note .info message := by
  rw [tell, Journal.tell_singleton, note]

theorem tell_tell (session : Session) (messages others : List String) :
    (session.tell messages).tell others = session.tell (messages ++ others) := by
  simp only [tell, Journal.tell_tell]

end Session

namespace SessionM

variable {session : Session}

theorem showLine_eq (line : String) (session : Session) :
    showLine line session
      = .ok () (session.tell (if session.terminal.echo then ["> " ++ line] else [])) := by
  rw [showLine, get_bind]
  split
  · rw [Session.tell_singleton]
    rfl
  · rw [Session.tell_nil]
    rfl

/-- A line that is not shown itself, and has nothing to warn of, only runs its
commands. -/
theorem runLineWith_unshown (script : Session -> Session) {line : String}
    {state after : Parser.State} {commands : List Command}
    (begun : Parser.start (trimmed line) = .ok state)
    (read : Parser.line state = .ok commands after) (unwarned : after.warnings = [])
    (unshown : session.terminal.echo = false) :
    runLineWith script line session = runCommandsWith script commands session := by
  have hidden := showLine_eq (trimmed line) session
  rw [unshown, if_neg Bool.false_ne_true, Session.tell_nil] at hidden
  rw [runLineWith_of_read script begun read, bind_of_ok hidden, unwarned]
  rfl

/-- A line that shows a text, and is not shown itself, shows the text and does
nothing else. -/
theorem runLineWith_echoLine (script : Session -> Session)
    (unshown : session.terminal.echo = false) (text : String) :
    runLineWith script (echoLine text) session = .ok () (session.note .info text) := by
  rcases Parser.line_echoLine text with ⟨state, span, after, begun, read, unwarned⟩
  rw [← trimmed_echoLine] at begun
  rw [runLineWith_unshown script begun read unwarned unshown]
  rfl

theorem settleLines_echoLine (unshown : session.terminal.echo = false) (texts : List String) :
    ((texts.map echoLine).forM fun line => modify fun session : Session =>
        session.settle (runLine line) : SessionM Unit) session
      = .ok () (session.tell texts) := by
  induction texts generalizing session with
  | nil =>
      rw [Session.tell_nil]
      rfl
  | cons text texts ih =>
      have first : session.settle (runLine (echoLine text)) = session.note .info text :=
        Session.settle_of_ok (runLineWith_echoLine Session.runScript unshown text)
      have others := @ih (session.note .info text) unshown
      rw [← Session.tell_singleton, Session.tell_tell, Session.tell_singleton, ← first] at others
      exact others

end SessionM

/-! ## Answers -/

namespace Session

/-- The session after an answer that shows the given texts. -/
def answered (session : Session) (line : String) (texts : List String) : Session :=
  { session.tell ((if session.terminal.echo then ["> " ++ line] else []) ++ texts) with
    pending? := none
    terminal := { session.terminal with echo := true, mode := .command, canType := false } }

/-- An answer shows its texts, and the line goes on. -/
theorem submit_of_texts {session : Session} {pending : Pending} {line : String}
    {texts : List String} (waiting : session.pending? = some pending)
    (shows : pending.question.onAnswer? line = some (texts.map echoLine)) :
    session.submit line
      = ((session.answered line texts).settle
          (SessionM.runCommands pending.remaining)).setCanType true := by
  rw [submit_of_pending waiting]
  congr 1
  apply settle_congr
  rw [SessionM.answer, bind_of_ok (SessionM.showLine_eq line _), modify_bind]
  simp only [shows]
  rw [bind_of_ok (SessionM.settleLines_echoLine rfl texts), modify_bind]
  simp only [answered, tell, ← Journal.tell_tell]
  rfl

/-- The license is made of its lines. -/
theorem lines_licenseText :
    (Text.lines licenseText.toList).length = 21
      ∧ (∀ line ∈ Text.lines licenseText.toList, '\n' ∉ line)
      ∧ (Text.lines licenseText.toList).flatMap (· ++ ['\n']) = licenseText.toList := by
  -- The kernel is slow to take a literal apart, so it is given the characters.
  rw [licenseText, String.toList_ofList]
  decide +kernel

open Token (Cursor)
open Text

/-- Every text comes through the line that shows it: between quotes it is one
token, which is read as the text, and the line adds the text to the journal and
does nothing else.  So the answer yes shows the license line by line.  And no
token between quotes has a backslash left over, or stands for itself. -/
theorem echoLine_verbatim :
    (∀ text, echoLine text = "echo " ++ Quoted.encode text
        ∧ ∃ quoted ending, (Cursor.start (Quoted.encode text)).read.tokens = [quoted, ending]
          ∧ (Cursor.start (Quoted.encode text)).read.fault = none
          ∧ quoted.kind = .string ∧ quoted.text = Quoted.encode text
          ∧ ending.kind = .endOfLine ∧ Quoted.decode quoted.text = text)
      ∧ (∀ (session : Session) text, session.terminal.echo = false ->
          session.settle (SessionM.runLine (echoLine text)) = session.note .info text)
      ∧ (∀ (session : Session) remaining,
          session.pending? = some { question := .license, remaining } ->
          session.submit "y"
            = ((session.answered "y" ((lines licenseText.toList).map String.ofList)).settle
                (SessionM.runCommands remaining)).setCanType true)
      ∧ ((lines licenseText.toList).length = 21
          ∧ (∀ line ∈ lines licenseText.toList, '\n' ∉ line)
          ∧ (lines licenseText.toList).flatMap (· ++ ['\n']) = licenseText.toList)
      ∧ ∀ line, ∀ token ∈ (Cursor.start line).read.tokens, token.kind = .string ->
          (∃ inner, Quoted.inner? token.text.toList = some inner ∧ Quoted.dangles inner = false)
            ∧ Quoted.decode token.text ≠ token.text := by
  refine ⟨?_, ?_, ?_, lines_licenseText, ?_⟩
  · intro text
    rcases Cursor.read_encode text with ⟨quoted, ending, tokens, whole, kind, spelled, last⟩
    refine ⟨rfl, quoted, ending, tokens, whole, kind, spelled, last, ?_⟩
    rw [spelled, Quoted.decode_encode]
  · intro session text unshown
    exact settle_of_ok (SessionM.runLineWith_echoLine runScript unshown text)
  · intro session remaining waiting
    exact submit_of_texts waiting rfl
  · intro line token member string
    rcases Cursor.quoted_of_mem_read member string with ⟨body, pieces, quoted⟩
    refine ⟨⟨body, ?_, Quoted.dangles_of_pieces pieces⟩, Quoted.decode_ne_self quoted⟩
    rw [quoted, Quoted.inner?_quoted]

theorem echoLine_verbatim_backslash :
    let text := "\\\"\n\\"
    let licensed := (lines licenseText.toList).map String.ofList
    let quiet := (start {}).setEcho false
    let waiting := { start {} with pending? := some { question := .license, remaining := [] } }
    let token : Token := { kind := .string, text := "\"\\\\\"", span := ⟨5, 9⟩ }
    quiet.settle (SessionM.runLine (echoLine text)) = quiet.note .info text
      ∧ (waiting.submit "y").journal = Journal.empty.tell ("> y" :: licensed)
      ∧ token ∈ (Cursor.start "echo \"\\\\\" ; \"\\\"").read.tokens
      ∧ Quoted.decode token.text ≠ token.text := by
  intro text licensed quiet waiting token
  rcases echoLine_verbatim with ⟨_, shows, answers, _, tokens⟩
  have member : token ∈ (Cursor.start "echo \"\\\\\" ; \"\\\"").read.tokens := by
    decide +kernel
  refine ⟨shows quiet text rfl, ?_, member, (tokens _ token member rfl).2⟩
  rw [answers waiting [] rfl]
  rfl

end Session
end LineShell
