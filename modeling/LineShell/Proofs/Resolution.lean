import Mathlib.Data.List.Forall2
import Mathlib.Data.List.TakeWhile
import LineShell.Proofs.Execution
import LineShell.Session.Line

namespace LineShell

/-!
# Where a path leads

A path is a walk from the root: a name goes down, two dots go up, and at the
root there is nothing above.  The place that a walk ends at is the list of the
names on the way to it.  Resolving a target writes down the place that it leads
to, from the home directory if it can, so the written path leads to the same
place, and two written paths are the same exactly if their places are.

Everything else follows from this.  To resolve a target and then another one
behind it is to resolve the two together, and a path that was resolved stays as
it is.  A `~` that was not written by resolving is another matter: it is kept
only if the home directory itself is written as resolving would write it.
-/

namespace Text

variable {α : Type} [DecidableEq α]

theorem splitOn_cons (separator item : α) (items : List α) :
    splitOn separator (item :: items)
      = if item = separator then [] :: splitOn separator items
        else (item :: (splitOn separator items).headD []) :: (splitOn separator items).tail := rfl

theorem splitOn_eq (separator : α) (items : List α) :
    splitOn separator items = items.splitOn separator := by
  induction items with
  | nil => rfl
  | cons item items ih =>
      have library := List.splitOnP_cons_eq_if_modifyHead (p := (· == separator)) item items
      rw [← List.splitOn_eq_splitOnP, ← List.splitOn_eq_splitOnP] at library
      rw [splitOn_cons, ih, library]
      simp only [beq_iff_eq]
      split
      · rfl
      · cases pieces : items.splitOn separator with
        | nil => exact absurd pieces (List.splitOnP_ne_nil _ _)
        | cons first others => rfl

theorem exists_splitOn (separator : α) (items : List α) :
    ∃ first others, splitOn separator items = first :: others := by
  apply List.exists_cons_of_ne_nil
  rw [splitOn_eq]
  exact List.splitOnP_ne_nil _ _

theorem splitOn_append (separator : α) (front back : List α) :
    splitOn separator (front ++ separator :: back)
      = splitOn separator front ++ splitOn separator back := by
  rw [splitOn_eq, splitOn_eq, splitOn_eq]
  exact List.splitOnP_append_cons front back (beq_self_eq_true separator)

/-- No piece holds the separator. -/
theorem separator_not_mem {separator : α} {items piece : List α}
    (member : piece ∈ splitOn separator items) : separator ∉ piece := by
  induction items generalizing piece with
  | nil =>
      rw [List.mem_singleton.mp member]
      exact List.not_mem_nil
  | cons item items ih =>
      rcases exists_splitOn separator items with ⟨first, others, pieces⟩
      rw [splitOn_cons, pieces] at member
      rw [pieces] at ih
      split at member
      · rcases List.mem_cons.mp member with rfl | later
        · exact List.not_mem_nil
        · exact ih later
      · rename_i different
        rcases List.mem_cons.mp member with rfl | later
        · exact List.not_mem_cons_of_ne_of_not_mem (Ne.symm different) (ih List.mem_cons_self)
        · exact ih (List.mem_cons_of_mem _ later)

end Text

namespace Path

/-! ## Places -/

/-- Goes on from a place by one segment of a path. -/
def walk (place : List (List Char)) (segment : List Char) : List (List Char) :=
  if segment = [] ∨ segment = ['.'] then place
  else if segment = ['.', '.'] then place.dropLast
  else place ++ [segment]

/-- The place that a path leads to from the root: the names on the way. -/
def place (path : List Char) : List (List Char) :=
  (path.splitOn '/').foldl walk []

theorem reverse_follow (passed : List (List Char)) (segment : List Char) :
    (follow passed segment).reverse = walk passed.reverse segment := by
  unfold follow walk
  split
  · rfl
  · split
    · exact List.dropLast_reverse.symm
    · exact List.reverse_cons

theorem segments_eq_place (path : List Char) : segments path = place path := by
  have general : ∀ (pieces passed : List (List Char)),
      (pieces.foldl follow passed).reverse = pieces.foldl walk passed.reverse := by
    intro pieces
    induction pieces with
    | nil => exact fun _ => rfl
    | cons piece pieces ih =>
        intro passed
        rw [List.foldl_cons, List.foldl_cons, ih, reverse_follow]
  rw [segments, Text.splitOn_eq, place]
  exact general _ []

/-- Behind a slash a path goes on from the place before it. -/
theorem place_append (front back : List Char) :
    place (front ++ '/' :: back) = (back.splitOn '/').foldl walk (place front) := by
  rw [place, place, ← Text.splitOn_eq, Text.splitOn_append, List.foldl_append, Text.splitOn_eq,
    Text.splitOn_eq]

theorem place_append_congr {front other : List Char} (same : place front = place other)
    (back : List Char) : place (front ++ '/' :: back) = place (other ++ '/' :: back) := by
  rw [place_append, place_append, same]

theorem place_append_slash (path : List Char) : place (path ++ ['/']) = place path :=
  place_append path []

/-- A segment that goes down. -/
structure IsName (segment : List Char) : Prop where
  ne_nil : segment ≠ []
  ne_dot : segment ≠ ['.']
  ne_dots : segment ≠ ['.', '.']
  no_slash : '/' ∉ segment

theorem walk_of_isName {segment : List Char} (name : IsName segment)
    (place : List (List Char)) : walk place segment = place ++ [segment] := by
  rw [walk, if_neg (not_or.mpr ⟨name.ne_nil, name.ne_dot⟩), if_neg name.ne_dots]

theorem foldl_walk_names {segments : List (List Char)}
    (names : ∀ segment ∈ segments, IsName segment)
    (place : List (List Char)) : segments.foldl walk place = place ++ segments := by
  induction segments generalizing place with
  | nil => exact (List.append_nil place).symm
  | cons segment segments ih =>
      rcases List.forall_mem_cons.mp names with ⟨first, others⟩
      rw [List.foldl_cons, walk_of_isName first, ih others, List.append_assoc,
        List.singleton_append]

/-- A step leads from names to names. -/
theorem names_walk {place : List (List Char)} (names : ∀ name ∈ place, IsName name)
    {segment : List Char} (plain : '/' ∉ segment) : ∀ name ∈ walk place segment, IsName name := by
  unfold walk
  split
  · exact names
  · rename_i goes
    split
    · exact fun name member => names name (List.dropLast_subset place member)
    · rename_i down
      rw [not_or] at goes
      exact List.forall_mem_append.mpr
        ⟨names, List.forall_mem_singleton.mpr ⟨goes.1, goes.2, down, plain⟩⟩

theorem names_place (path : List Char) : ∀ name ∈ place path, IsName name := by
  have general : ∀ (pieces place : List (List Char)), (∀ piece ∈ pieces, '/' ∉ piece) ->
      (∀ name ∈ place, IsName name) -> ∀ name ∈ pieces.foldl walk place, IsName name := by
    intro pieces
    induction pieces with
    | nil => exact fun _ _ names => names
    | cons piece pieces ih =>
        intro place plain names
        rcases List.forall_mem_cons.mp plain with ⟨first, others⟩
        exact ih (walk place piece) others (names_walk names first)
  apply general
  · intro piece member
    rw [← Text.splitOn_eq] at member
    exact Text.separator_not_mem member
  · intro name member
    cases member

/-- The path that is written for a place leads there. -/
theorem place_absolute {segments : List (List Char)}
    (names : ∀ segment ∈ segments, IsName segment) : place (absolute segments) = segments := by
  have behind : place (absolute segments)
      = ((List.intercalate ['/'] segments).splitOn '/').foldl walk [] :=
    place_append [] _
  rw [behind]
  cases segments with
  | nil => rfl
  | cons first others =>
      rw [List.splitOn_intercalate '/' (fun segment member => (names segment member).no_slash)
        (List.cons_ne_nil first others)]
      exact foldl_walk_names names []

theorem place_absolute_place (path : List Char) : place (absolute (place path)) = place path :=
  place_absolute (names_place path)

/-! ## The home directory -/

theorem exists_trimSlashes (path : List Char) :
    ∃ count, path = trimSlashes path ++ List.replicate count '/' := by
  have trailing : (path.reverse.takeWhile (· = '/')).reverse
      = List.replicate (path.reverse.takeWhile (· = '/')).length '/' := by
    apply List.eq_replicate_iff.mpr
    refine ⟨List.length_reverse, ?_⟩
    intro char member
    have slash := List.mem_takeWhile_imp (List.mem_reverse.mp member)
    exact of_decide_eq_true slash
  refine ⟨(path.reverse.takeWhile (· = '/')).length, ?_⟩
  rw [← trailing, trimSlashes, ← List.reverse_append, List.takeWhile_append_dropWhile,
    List.reverse_reverse]

/-- Slashes at the end lead nowhere. -/
theorem place_trimSlashes (path : List Char) : place (trimSlashes path) = place path := by
  have general : ∀ count, place (trimSlashes path ++ List.replicate count '/')
      = place (trimSlashes path) := by
    intro count
    induction count with
    | zero => rw [List.replicate_zero, List.append_nil]
    | succ count ih =>
        rw [List.replicate_succ', ← List.append_assoc, place_append_slash]
        exact ih
  rcases exists_trimSlashes path with ⟨count, shape⟩
  rw [← general count, ← shape]

theorem expand_of_rooted {path : List Char} (rooted : path.head? = some '/') (home : List Char) :
    expand home path = path := by
  cases path with
  | nil => cases rooted
  | cons first rest =>
      cases rooted
      rfl

theorem expand_tilde (home rest : List Char) :
    expand home ('~' :: '/' :: rest) = home ++ '/' :: rest := rfl

/-- What a `~` stands for may be written out later. -/
theorem expand_append (home front back : List Char) :
    expand home (front ++ '/' :: back) = expand home front ++ '/' :: back := by
  rcases front with _ | ⟨first, _ | ⟨second, rest⟩⟩
  · rfl
  · by_cases tilde : first = '~'
    · subst tilde
      rfl
    · simp [expand, List.isPrefixOf?, tilde, Ne.symm tilde]
  · by_cases home? : '~' = first ∧ '/' = second
    · rcases home? with ⟨rfl, rfl⟩
      simp [expand, List.isPrefixOf?]
    · rw [not_and] at home?
      by_cases tilde : '~' = first
      · simp [expand, List.isPrefixOf?, home? tilde]
      · simp [expand, List.isPrefixOf?, tilde]

/-- A path from the root that is written from the home directory leads to the
same place. -/
theorem place_expand_abbreviate {path : List Char} (rooted : path.head? = some '/')
    (home : List Char) : place (expand home (abbreviate home path)) = place path := by
  simp only [abbreviate]
  split
  · rename_i same
    rw [same, place_trimSlashes]
    rfl
  · split
    · rename_i rest found
      rw [List.isPrefixOf?_eq_some_iff_append_eq] at found
      split
      · rename_i below
        rcases rest with _ | ⟨slash, rest⟩
        · cases below
        · cases below
          rw [expand_tilde, ← found]
          exact place_append_congr (place_trimSlashes home).symm rest
      · rw [expand_of_rooted rooted]
    · rw [expand_of_rooted rooted]

/-! ## Targets -/

/-- The path that is written for a place. -/
def write (home : List Char) (segments : List (List Char)) : List Char :=
  abbreviate home (absolute segments)

theorem toList_resolve (workingDirectory home target : String) :
    (resolve workingDirectory home target).toList
      = write home.toList (place (join workingDirectory.toList home.toList target.toList)) := by
  rw [resolve, String.toList_ofList, segments_eq_place, write]

/-- What is written for a place leads there. -/
theorem place_write (home path : List Char) :
    place (expand home (write home (place path))) = place path := by
  have rooted : (absolute (place path)).head? = some '/' := rfl
  rw [write, place_expand_abbreviate rooted, place_absolute_place]

theorem write_inj {home path other : List Char} :
    write home (place path) = write home (place other) ↔ place path = place other := by
  constructor
  · intro same
    rw [← place_write home path, same, place_write]
  · exact congrArg (write home)

/-- Only the home directory is written as `~`. -/
theorem write_eq_tilde_iff (home : List Char) (segments : List (List Char)) :
    write home segments = ['~'] ↔ trimSlashes home = absolute segments := by
  simp only [write, abbreviate]
  split
  · rename_i same
    exact iff_of_true rfl same.symm
  · rename_i different
    apply iff_of_false _ (Ne.symm different)
    split
    · rename_i rest _
      split
      · rename_i below
        intro same
        rw [(List.cons.inj same).2] at below
        cases below
      · nofun
    · nofun

/-- A target that is followed from the working directory. -/
structure IsRelative (target : List Char) : Prop where
  not_rooted : target.head? ≠ some '/'
  ne_home : target ≠ ['~']
  not_homed : ¬['~', '/'] <+: target

theorem join_of_isRelative {target : List Char} (relative : IsRelative target)
    (workingDirectory home : List Char) :
    join workingDirectory home target = expand home workingDirectory ++ '/' :: target := by
  have plain : expand home target = target := by
    rw [expand, if_neg relative.ne_home]
    split
    · rename_i rest found
      rw [List.isPrefixOf?_eq_some_iff_append_eq] at found
      exact absurd ⟨rest, found⟩ relative.not_homed
    · rfl
  simp only [join, plain, if_neg relative.not_rooted]

/-- Where the first part of a target is followed from is where the whole is. -/
theorem join_append {home front : List Char} (homed : home ≠ []) (going : front ≠ [])
    (workingDirectory back : List Char) :
    join workingDirectory home (front ++ '/' :: back)
      = join workingDirectory home front ++ '/' :: back := by
  have visible : expand home front ≠ [] := by
    unfold expand
    split
    · exact homed
    · split
      · simp
      · exact going
  simp only [join, expand_append, List.head?_append_of_ne_nil _ visible]
  split
  · rfl
  · simp

theorem place_join_resolve {back : List Char} (relative : IsRelative back)
    (workingDirectory home target : String) :
    place (join (resolve workingDirectory home target).toList home.toList back)
      = place (join workingDirectory.toList home.toList target.toList ++ '/' :: back) := by
  rw [join_of_isRelative relative, toList_resolve]
  exact place_append_congr (place_write _ _) back

/-- To resolve a target and then another one behind it is to resolve the two
together. -/
theorem resolve_resolve {home front back : String} (homed : home ≠ "") (going : front ≠ "")
    (relative : IsRelative back.toList) (workingDirectory : String) :
    resolve (resolve workingDirectory home front) home back
      = resolve workingDirectory home (front ++ "/" ++ back) := by
  have spelled : (front ++ "/" ++ back).toList = front.toList ++ '/' :: back.toList := by
    simp
  apply String.toList_inj.mp
  rw [toList_resolve (resolve workingDirectory home front), place_join_resolve relative,
    toList_resolve, spelled, join_append]
  · simpa using homed
  · simpa using going

theorem isRelative_dot : IsRelative ['.'] := ⟨by decide, by decide, by decide⟩

theorem place_append_dot (path : List Char) : place (path ++ ['/', '.']) = place path :=
  place_append path ['.']

/-- What was resolved stays as it is. -/
theorem resolve_dot (workingDirectory home target : String) :
    resolve (resolve workingDirectory home target) home "."
      = resolve workingDirectory home target := by
  have here : ".".toList = ['.'] := rfl
  apply String.toList_inj.mp
  rw [toList_resolve (resolve workingDirectory home target), here,
    place_join_resolve isRelative_dot, place_append_dot, toList_resolve]

/-- A `~` that was not resolved stays as it is if the home directory is written
as a place is. -/
theorem resolve_home_dot (home : String) :
    resolve "~" home "." = "~"
      ↔ trimSlashes home.toList = absolute (place home.toList) := by
  have here : ".".toList = ['.'] := rfl
  have tilde : "~".toList = ['~'] := rfl
  have expanded : expand home.toList ['~'] = home.toList := rfl
  rw [← String.toList_inj, toList_resolve, here, tilde, join_of_isRelative isRelative_dot, expanded,
    place_append_dot]
  exact write_eq_tilde_iff _ _

/-- The place that a target leads to: from the root if it starts there, and from
the working directory otherwise. -/
def destination (workingDirectory home target : String) : List (List Char) :=
  let target := expand home.toList target.toList
  if target.head? = some '/' then place target
  else place (expand home.toList workingDirectory.toList ++ '/' :: target)

theorem place_join (workingDirectory home target : String) :
    place (join workingDirectory.toList home.toList target.toList)
      = destination workingDirectory home target := by
  simp only [join, destination]
  split
  · rfl
  · rfl

end Path

/-! ## Commands that go to a directory -/

/-- The command goes to a directory; without a target, home. -/
structure Command.GoesTo (command : Command) (target? : Option String) : Prop where
  action : command.action = .cd
  target : Command.text? command.parameters 0 = target?

namespace SessionM

open Steps

theorem runCommands_goesTo {command : Command} {target? : Option String}
    (goes : command.GoesTo target?) (remaining : List Command) (session : Session) :
    runCommands (command :: remaining) session
      = runCommands remaining (session.withDirectory target?) := by
  rcases command with ⟨name, action, parameters, span⟩
  rcases goes with ⟨rfl, rfl⟩
  rfl

/-- Whether going on to a second directory is the same as going somewhere at
once depends on the directory that is reached only. -/
theorem runCommands_goesTo_iff {first second whole : Command} {first? whole? : Option String}
    {back : String} (goesFirst : first.GoesTo first?) (goesSecond : second.GoesTo (some back))
    (goesWhole : whole.GoesTo whole?) (session : Session) :
    runCommands [first, second] session = runCommands [whole] session
      ↔ Path.resolve (session.withDirectory first?).terminal.workingDirectory
          session.terminal.home back
        = (session.withDirectory whole?).terminal.workingDirectory := by
  rw [runCommands_goesTo goesFirst, runCommands_goesTo goesSecond, runCommands_goesTo goesWhole]
  have ended : ∀ reached : Session, runCommands [] reached = .ok () reached := fun _ => rfl
  rw [ended, ended, EStateM.Result.ok.injEq]
  constructor
  · intro same
    exact congrArg (fun reached => reached.terminal.workingDirectory) same.2
  · intro same
    exact ⟨rfl, congrArg (fun workingDirectory => { session with
      terminal := { session.terminal with workingDirectory } }) same⟩

end SessionM

namespace Path

/-- A resolved path leads where its target leads, and two of them are the same
exactly if they lead to the same place.  So to go to a directory and then to
another one is to go there at once, and to stay after going to a target changes
nothing.  After going home without a target it changes nothing exactly if the
home directory is written like a place. -/
theorem resolve_keeps_place {home : String} (rooted : home.toList.head? = some '/') :
    (∀ workingDirectory target,
        place (expand home.toList (resolve workingDirectory home target).toList)
          = destination workingDirectory home target)
      ∧ (∀ workingDirectory target workingDirectory' target',
          resolve workingDirectory home target = resolve workingDirectory' home target'
            ↔ destination workingDirectory home target
              = destination workingDirectory' home target')
      ∧ (∀ workingDirectory front back, front ≠ "" -> IsRelative back.toList ->
          resolve (resolve workingDirectory home front) home back
            = resolve workingDirectory home (front ++ "/" ++ back))
      ∧ ∀ session : Session, session.terminal.home = home -> ∀ first second : Command,
          (∀ front back (whole : Command), front ≠ "" -> IsRelative back.toList ->
              first.GoesTo (some front) -> second.GoesTo (some back) ->
              whole.GoesTo (some (front ++ "/" ++ back)) ->
              SessionM.runCommands [first, second] session
                = SessionM.runCommands [whole] session)
            ∧ (∀ target, first.GoesTo (some target) -> second.GoesTo (some ".") ->
                SessionM.runCommands [first, second] session
                  = SessionM.runCommands [first] session)
            ∧ (first.GoesTo none -> second.GoesTo (some ".") ->
                (SessionM.runCommands [first, second] session
                    = SessionM.runCommands [first] session
                  ↔ trimSlashes home.toList = absolute (place home.toList))) := by
  have homed : home ≠ "" := by
    rintro rfl
    cases rooted
  refine ⟨?_, ?_, ?_, ?_⟩
  · intro workingDirectory target
    rw [toList_resolve, place_write, place_join]
  · intro workingDirectory target workingDirectory' target'
    rw [← String.toList_inj, toList_resolve, toList_resolve, write_inj, place_join, place_join]
  · intro workingDirectory front back going relative
    exact resolve_resolve homed going relative workingDirectory
  · rintro session rfl first second
    refine ⟨?_, ?_, ?_⟩
    · intro front back whole going relative goesFirst goesSecond goesWhole
      exact (SessionM.runCommands_goesTo_iff goesFirst goesSecond goesWhole session).mpr
        (resolve_resolve homed going relative _)
    · intro target goesFirst goesSecond
      exact (SessionM.runCommands_goesTo_iff goesFirst goesSecond goesFirst session).mpr
        (resolve_dot _ _ target)
    · intro goesFirst goesSecond
      exact (SessionM.runCommands_goesTo_iff goesFirst goesSecond goesFirst session).trans
        (resolve_home_dot _)

theorem resolve_keeps_place_mixed :
    let home := "/home/user/"
    let command := fun target => Command.mk "cd" .cd [.path target] ⟨0, 0⟩
    let alone := Command.mk "cd" .cd [] ⟨0, 0⟩
    let session : Session := { Session.start {} with
      terminal := { Terminal.ofSettings {} with home? := some home, workingDirectory := "/etc" } }
    home.toList.head? = some '/' ∧ resolve "/etc" home "~/./a//" = "~/a"
      ∧ place (expand home.toList (resolve "/etc" home "~/./a//").toList)
          = destination "/etc" home "~/./a//"
      ∧ resolve (resolve "/etc" home "~/./a//") home "../b"
          = resolve "/etc" home ("~/./a//" ++ "/" ++ "../b")
      ∧ SessionM.runCommands [command "~/./a//", command "../b"] session
          = SessionM.runCommands [command "~/./a///../b"] session
      ∧ SessionM.runCommands [alone, command "."] session
          = SessionM.runCommands [alone] session := by
  intro home command alone session
  have rooted : home.toList.head? = some '/' := by decide
  have relative : IsRelative "../b".toList := ⟨by decide, by decide, by decide⟩
  rcases resolve_keeps_place rooted with ⟨kept, _, composed, commands⟩
  refine ⟨rooted, by decide, kept _ _, composed _ _ _ (by decide) relative, ?_, ?_⟩
  · exact (commands session rfl _ _).1 "~/./a//" "../b" _ (by decide) relative ⟨rfl, rfl⟩ ⟨rfl, rfl⟩
      ⟨rfl, rfl⟩
  · exact ((commands session rfl alone _).2.2 ⟨rfl, rfl⟩ ⟨rfl, rfl⟩).mpr (by decide)

/-- A home directory with a segment that goes nowhere is not written like a
place, so staying there after going home leaves the `~`. -/
theorem resolve_home_dot_dotted :
    let session := ["user \".\"", "cd"].foldl Session.submit (Session.start {})
    session.terminal.home = "/home/." ∧ session.terminal.workingDirectory = "~"
      ∧ (session.submit "cd .").terminal.workingDirectory = "/home" := by
  decide +kernel

end Path
end LineShell
