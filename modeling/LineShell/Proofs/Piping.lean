import LineShell.Proofs.Echoing
import LineShell.Proofs.Regularity

namespace LineShell

/-!
# Output that is handed back

A command that is called inside an expression should hand its output back and
show nothing.  Two commands do not keep to this: the one that runs the script
hands back the empty text and shows the output of every line of the script, and
the one that clears the journal shows the banner if it is asked for it.  Neither
looks at whether its output goes into an expression.  What an expression adds to
the journal are the messages of such calls, and nothing else.
-/

open Steps

/-! ## The script -/

namespace Session

/-- The list of all commands. -/
def listing : String :=
  "List of all available commands:\n  " ++ String.intercalate "\n  " Builtin.names
    ++ "\n\nUse help <command> to learn more about a specific command\n"

/-- The messages of the script. -/
def rehearsal (banner : String) : List String :=
  ["these commands are synthetic user inputs!", banner, listing, "2 + 2 = 4"]

/-- The phrase that the script computes. -/
def scriptPhrase : Phrase :=
  .binary .add (.text "2 + 2 = ")
    (.binary .add (.number ⟨"2", by decide⟩) (.number ⟨"2", by decide⟩))

section Script

variable {session : Session} (unshown : session.terminal.echo = false)
include unshown

/-- A line of one command that shows a message shows it. -/
theorem settle_unshown {line message : String} {state after : Parser.State} {command : Command}
    {value : Value} (begun : Parser.start (SessionM.trimmed line) = .ok state)
    (read : Parser.line state = .ok [command] after) (unwarned : after.warnings = [])
    (shows : SessionM.executeWith id false command session
      = .ok (.value value) (session.note .info message)) :
    session.settle (SessionM.runLineWith id line) = session.note .info message := by
  apply settle_of_ok
  rw [SessionM.runLineWith_unshown id begun read unwarned unshown,
    SessionM.runCommandsWith_of_value shows]
  rfl

theorem settle_motd :
    session.settle (SessionM.runLineWith id "motd")
      = session.note .info session.terminal.banner := by
  obtain ⟨state, after, begun, read, unwarned⟩ : ∃ state after,
      Parser.start (SessionM.trimmed "motd") = .ok state
        ∧ Parser.line state
          = .ok [{ name := "motd", action := .motd, parameters := [], span := ⟨0, 4⟩ }] after
        ∧ after.warnings = [] :=
    ⟨_, _, by with_unfolding_all rfl, by with_unfolding_all rfl, rfl⟩
  exact settle_unshown unshown begun read unwarned rfl

theorem settle_help :
    session.settle (SessionM.runLineWith id "help") = session.note .info listing := by
  obtain ⟨state, after, begun, read, unwarned⟩ : ∃ state after,
      Parser.start (SessionM.trimmed "help") = .ok state
        ∧ Parser.line state
          = .ok [{ name := "help", action := .help, parameters := [], span := ⟨0, 4⟩ }] after
        ∧ after.warnings = [] :=
    ⟨_, _, by with_unfolding_all rfl, by with_unfolding_all rfl, rfl⟩
  exact settle_unshown unshown begun read unwarned rfl

theorem settle_sum :
    session.settle (SessionM.runLineWith id "echo \"2 + 2 = \" + (2 + 2)")
      = session.note .info "2 + 2 = 4" := by
  have trimmed : SessionM.trimmed "echo \"2 + 2 = \" + (2 + 2)"
      = "echo \"2 + 2 = \" + (2 + 2)" := by decide +kernel
  have tokens : (Token.Cursor.start "echo \"2 + 2 = \" + (2 + 2)").read.tokens.map Token.lexeme
      = Parser.echo :: scriptPhrase.lexemes .additive ++ [Token.Lexeme.ending] := by decide +kernel
  have complete : (Token.Cursor.start "echo \"2 + 2 = \" + (2 + 2)").read.fault = none := by
    decide +kernel
  rcases Parser.line_echo scriptPhrase tokens complete (by decide +kernel) with
    ⟨state, _, after, begun, read, ⟨span, rfl⟩, unwarned⟩
  rw [← trimmed] at begun
  let two := NumberLiteral.value ⟨"2", by decide⟩
  have value : (BinaryOperator.add.apply (.text "2 + 2 = ")
      (BinaryOperator.add.apply (.number two) (.number two))).render = "2 + 2 = 4" := by
    decide +kernel
  rw [← value]
  exact settle_unshown unshown begun read unwarned rfl

/-- The script adds its messages to the journal, and does nothing else. -/
theorem runScript_eq : session.runScript = session.tell (rehearsal session.terminal.banner) := by
  have lines : scriptLines = [echoLine "these commands are synthetic user inputs!", "motd", "help",
      "echo \"2 + 2 = \" + (2 + 2)"] := by decide +kernel
  have first := settle_of_ok (SessionM.runLineWith_echoLine id unshown
    "these commands are synthetic user inputs!")
  rw [runScript, lines]
  simp only [List.foldl_cons, List.foldl_nil]
  rw [first, settle_motd, settle_help, settle_sum]
  · simp only [← tell_singleton, tell_tell]
    rfl
  all_goals exact unshown

end Script

theorem rehearsed_eq (session : Session) :
    session.rehearsed runScript
      = (session.tell (rehearsal session.terminal.banner)).setEcho true := by
  have unshown : (session.setEcho false).terminal.echo = false := rfl
  rw [rehearsed, runScript_eq unshown]
  rfl

end Session

/-! ## Calls that show something -/

/-- The messages that a command shows although its output is handed back. -/
def Command.intrusion (banner : String) (command : Command) : List String :=
  match command.action with
  | .test => Session.rehearsal banner
  | .clear => if (Command.text? command.parameters 0).isSome then [banner] else []
  | _ => []

namespace Journal

/-- A journal after messages were added to it, or to an empty one of a later
epoch if it was cleared before. -/
def Written (before : Journal) (cleared : Prop) (messages : List String) (after : Journal) :
    Prop :=
  after = before.tell messages
    ∨ cleared ∧ ∃ epoch, before.epoch < epoch
      ∧ after = tell { entries := #[], epoch } messages

namespace Written

variable {cleared : Prop} {messages others : List String} {before between after : Journal}

theorem epoch_le (written : before.Written cleared messages after) :
    before.epoch ≤ after.epoch := by
  rcases written with rfl | ⟨_, epoch, later, rfl⟩
  · exact Nat.le_refl _
  · exact Nat.le_of_lt later

/-- What was written before the journal was last cleared is gone. -/
theorem trans (first : before.Written cleared messages between)
    (second : between.Written cleared others after) :
    before.Written cleared (messages ++ others) after ∨ before.Written cleared others after := by
  rcases second with rfl | ⟨clear, epoch, later, rfl⟩
  · left
    rcases first with rfl | ⟨clear, epoch, later, rfl⟩
    · exact .inl (tell_tell ..)
    · exact .inr ⟨clear, epoch, later, tell_tell ..⟩
  · right
    exact .inr ⟨clear, epoch, Nat.lt_of_le_of_lt first.epoch_le later, rfl⟩

end Written
end Journal

namespace Session

/-- The journal of the second session is that of the first one after some calls
have shown their messages. -/
structure Intruded (calls : Command -> Prop) (session after : Session) : Prop where
  banner : after.terminal.banner = session.terminal.banner
  journal : ∃ commands : List Command, (∀ command ∈ commands, calls command)
    ∧ session.journal.Written (∃ command, calls command ∧ command.action = .clear)
        (commands.flatMap (Command.intrusion session.terminal.banner)) after.journal

variable {calls : Command -> Prop}

/-- What leaves the journal and the banner alone shows nothing. -/
theorem intruded_of_silent {session after : Session}
    (banner : after.terminal.banner = session.terminal.banner)
    (journal : after.journal = session.journal) : session.Intruded calls after := by
  refine ⟨banner, [], fun _ member => absurd member List.not_mem_nil, .inl ?_⟩
  rw [List.flatMap_nil, Journal.tell_nil]
  exact journal

theorem Intruded.trans {one two three : Session} (first : one.Intruded calls two)
    (second : two.Intruded calls three) : one.Intruded calls three := by
  refine ⟨second.banner.trans first.banner, ?_⟩
  rcases first.journal with ⟨commands, called, written⟩
  rcases second.journal with ⟨others, calledOthers, writtenOthers⟩
  rw [first.banner] at writtenOthers
  rcases written.trans writtenOthers with both | last
  · rw [← List.flatMap_append] at both
    exact ⟨commands ++ others, List.forall_mem_append.mpr ⟨called, calledOthers⟩, both⟩
  · exact ⟨others, calledOthers, last⟩

theorem effects_intruded : Effects (Intruded calls) where
  refl _ := intruded_of_silent rfl rfl
  trans := Intruded.trans
  stored _ _ _ := intruded_of_silent rfl rfl
  flushed _ := intruded_of_silent rfl rfl
  renamed session name := by
    unfold withUser
    split
    · exact intruded_of_silent rfl rfl
    · exact intruded_of_silent rfl rfl
  moved _ _ := intruded_of_silent rfl rfl
  returned intruded := ⟨intruded.banner, intruded.journal⟩

/-- A command that is called shows no more than its messages. -/
theorem admitted_intruded {command : Command} (called : calls command) :
    command.Admitted (Intruded calls) runScript true where
  shown handed := by cases handed
  cleared clears session := by
    refine ⟨rfl, [], fun _ member => absurd member List.not_mem_nil, .inr ?_⟩
    refine ⟨⟨command, called, clears⟩, session.journal.epoch + 1, Nat.lt_succ_self _, ?_⟩
    rw [List.flatMap_nil, Journal.tell_nil]
    rfl
  announced clears asked session := by
    refine ⟨rfl, [command], List.forall_mem_singleton.mpr called, .inl ?_⟩
    have messages : command.intrusion session.terminal.banner = [session.terminal.banner] := by
      simp only [Command.intrusion, clears, asked, if_true]
    rw [List.flatMap_singleton, messages, Journal.tell_singleton]
    rfl
  rehearsed tests session := by
    refine ⟨?_, [command], List.forall_mem_singleton.mpr called, .inl ?_⟩
    · rw [rehearsed_eq]
      rfl
    · have messages : command.intrusion session.terminal.banner
          = rehearsal session.terminal.banner := by
        simp only [Command.intrusion, tests]
      rw [List.flatMap_singleton, messages, rehearsed_eq]
      rfl

/-- A call leaves what the command leaves, but for the level that it took. -/
theorem leftBy_call {session after : Session} {command : Command} {value : Value}
    (room : session.callDepth < SessionM.maxCallDepth)
    (ran : SessionM.executeWith runScript true command
        { session with callDepth := session.callDepth + 1 } = .ok (.value value) after) :
    session.leftBy (SessionM.evaluate (.call command))
      = { after with callDepth := after.callDepth - 1 } := by
  have called : SessionM.calling (SessionM.executeWith runScript true command) session
      = .ok (.value value) { after with callDepth := after.callDepth - 1 } := by
    simp only [SessionM.calling, if_neg (Nat.not_le.mpr room), ran]
  rw [leftBy, SessionM.evaluate, SessionM.evaluateWith, bind_of_ok called]
  rfl

theorem journal_call_test {session : Session} {command : Command}
    (room : session.callDepth < SessionM.maxCallDepth) (tests : command.action = .test) :
    (session.leftBy (SessionM.evaluate (.call command))).journal
      = session.journal.tell (rehearsal session.terminal.banner) := by
  rcases command with ⟨name, action, parameters, span⟩
  subst tests
  have ran : SessionM.executeWith runScript true ⟨name, .test, parameters, span⟩
      { session with callDepth := session.callDepth + 1 }
        = .ok (.value .empty)
            (rehearsed runScript { session with callDepth := session.callDepth + 1 }) := rfl
  rw [leftBy_call room ran, rehearsed_eq]
  rfl

theorem journal_call_clear {session : Session} {command : Command}
    (room : session.callDepth < SessionM.maxCallDepth) (clears : command.action = .clear) :
    (session.leftBy (SessionM.evaluate (.call command))).journal
      = session.journal.clear.tell (command.intrusion session.terminal.banner) := by
  rcases command with ⟨name, action, parameters, span⟩
  subst clears
  let emptied : Session :=
    { session with callDepth := session.callDepth + 1, journal := session.journal.clear }
  have ran : SessionM.executeWith runScript true ⟨name, .clear, parameters, span⟩
      { session with callDepth := session.callDepth + 1 }
        = .ok (.value .empty)
            (if (Command.text? parameters 0).isSome then emptied.showBanner else emptied) := by
    rw [SessionM.executeWith, SessionM.clear, modify_bind]
    split
    · rfl
    · rfl
  rw [leftBy_call room ran]
  simp only [Command.intrusion]
  split
  · rw [Journal.tell_singleton]
    rfl
  · rw [Journal.tell_nil]

/-- What an expression adds to the journal are messages of commands that are
called inside of it and show something although their output is handed back.
If there are none, it leaves the journal as it was, or cleared.  The two
commands that have such messages do show them. -/
theorem evaluate_intrusions (session : Session) (expression : Expr) :
    let after := session.leftBy (SessionM.evaluate expression)
    let banner := session.terminal.banner
    let clears := ∃ command, .call command ∈ expression.parts ∧ command.action = .clear
    (∃ commands : List Command, (∀ command ∈ commands, .call command ∈ expression.parts)
        ∧ session.journal.Written clears (commands.flatMap (Command.intrusion banner))
            after.journal)
      ∧ ((∀ command, .call command ∈ expression.parts -> command.intrusion banner = []) ->
          after.journal = session.journal
            ∨ clears ∧ after.journal.entries = #[]
              ∧ session.journal.epoch < after.journal.epoch)
      ∧ ∀ command, expression = .call command -> session.callDepth < SessionM.maxCallDepth ->
          (command.action = .test -> after.journal = session.journal.tell (rehearsal banner))
            ∧ (command.action = .clear ->
                after.journal = session.journal.clear.tell (command.intrusion banner)) := by
  intro after banner clears
  have intruded : session.Intruded (fun command => .call command ∈ expression.parts) after :=
    leftBy_of_ensures (SessionM.moves_evaluateWith effects_intruded expression
      (fun _ called => admitted_intruded called) session)
  rcases intruded.journal with ⟨commands, called, written⟩
  refine ⟨⟨commands, called, written⟩, ?_, ?_⟩
  · intro silent
    have nothing : commands.flatMap (Command.intrusion banner) = [] :=
      List.flatMap_eq_nil_iff.mpr fun command member => silent command (called command member)
    rw [nothing] at written
    rcases written with same | ⟨clear, epoch, later, same⟩
    · left
      rw [same, Journal.tell_nil]
    · right
      rw [Journal.tell_nil] at same
      rw [same]
      exact ⟨clear, rfl, later⟩
  · intro command same room
    have left : after = session.leftBy (SessionM.evaluate (.call command)) := by rw [← same]
    rw [left]
    exact ⟨journal_call_test room, journal_call_clear room⟩

theorem evaluate_intrusions_clear :
    let shown : Session := (start {}).note .info "hello"
    let command := fun action => Command.mk "" action [] ⟨0, 0⟩
    let expression : Expr := .array [.call (command .motd), .call (command .clear)]
    (∀ inner, .call inner ∈ expression.parts -> inner.intrusion shown.terminal.banner = [])
      ∧ (shown.leftBy (SessionM.evaluate expression)).journal.entries = #[]
      ∧ (shown.leftBy (SessionM.evaluate (.call (command .test)))).journal
          = shown.journal.tell (rehearsal shown.terminal.banner) := by
  intro shown command expression
  have silent : ∀ inner, .call inner ∈ expression.parts ->
      inner.intrusion shown.terminal.banner = [] := by
    intro inner member
    have shape : expression.parts = [.array [.call (command .motd), .call (command .clear)],
        .call (command .motd), .call (command .clear)] := rfl
    rw [shape] at member
    simp only [List.mem_cons, List.not_mem_nil, or_false] at member
    rcases member with same | same | same
    · cases same
    · cases same
      rfl
    · cases same
      rfl
  have changed : (shown.leftBy (SessionM.evaluate expression)).journal.entries
      ≠ shown.journal.entries := by decide +kernel
  refine ⟨silent, ?_, ?_⟩
  · rcases (evaluate_intrusions shown expression).2.1 silent with same | ⟨_, empty, _⟩
    · exact absurd (congrArg Journal.entries same) changed
    · exact empty
  · exact ((evaluate_intrusions shown _).2.2 _ rfl (by decide)).1 rfl

/-- An expression that only calls commands can show something. -/
theorem evaluate_test_shows :
    ∃ command span, Command.parseLine "x = (test)"
        = .ok [{ name := "x", action := .assign
                 parameters := [.word "x", .expression (.call command)], span }]
      ∧ ((start {}).leftBy (SessionM.evaluate (.call command))).journal.entries
          ≠ (start {}).journal.entries
      ∧ ((start {}).leftBy (SessionM.evaluate (.call command))).journal.entries ≠ #[] := by
  refine ⟨_, _, by with_unfolding_all rfl, ?_⟩
  rw [journal_call_test (by decide) rfl]
  decide

end Session
end LineShell
