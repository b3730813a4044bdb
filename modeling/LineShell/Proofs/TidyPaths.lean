import LineShell.Proofs.Resolution
import Mathlib.Data.List.DropRight

namespace LineShell
namespace Path

/-!
# How resolved paths are written

A place is a list of names, and so is a home directory that is written as places
are.  A path is written from `~` if the names of the home directory come first.
That is decided on texts, but a slash stands only between names, so it comes to
the same as comparing name by name.

The root falls out of this if it is the home directory.  Without its slash
nothing is left of its text, so every place is below it, and the root itself is
written with a slash that leads to no name.
-/

/-! ## Names between slashes -/

section Names

variable {front segments : List (List Char)}

theorem intercalate_cons {name : List Char} (nonempty : segments ≠ []) :
    List.intercalate ['/'] (name :: segments)
      = name ++ '/' :: List.intercalate ['/'] segments := by
  rcases List.exists_cons_of_ne_nil nonempty with ⟨next, others, rfl⟩
  rw [List.intercalate_cons_cons, List.append_assoc, List.singleton_append]

theorem absolute_eq_intercalate (nonempty : segments ≠ []) :
    absolute segments = List.intercalate ['/'] ([] :: segments) := by
  rw [intercalate_cons nonempty]
  rfl

theorem absolute_append (nonempty : front ≠ []) (more : segments ≠ []) :
    absolute (front ++ segments) = absolute front ++ absolute segments := by
  induction front with
  | nil => exact absurd rfl nonempty
  | cons name others ih =>
      by_cases last : others = []
      · subst last
        rw [List.singleton_append, absolute, absolute, intercalate_cons more,
          List.intercalate_singleton]
        rfl
      · have behind := List.append_ne_nil_of_left_ne_nil last segments
        have step := ih last
        rw [absolute, absolute, List.cons_append, List.cons.injEq] at step
        rw [List.cons_append, absolute, absolute, intercalate_cons behind, intercalate_cons last,
          step.2, List.cons_append, List.append_assoc, List.cons_append]

theorem splitOn_intercalate_names (nonempty : segments ≠ [])
    (names : ∀ name ∈ segments, IsName name) :
    (List.intercalate ['/'] segments).splitOn '/' = segments :=
  List.splitOn_intercalate '/' (fun name member => (names name member).no_slash) nonempty

theorem splitOn_absolute (nonempty : segments ≠ []) (names : ∀ name ∈ segments, IsName name) :
    (absolute segments).splitOn '/' = [] :: segments := by
  have plain : ∀ segment ∈ [] :: segments, '/' ∉ segment :=
    List.forall_mem_cons.mpr ⟨List.not_mem_nil, fun name member => (names name member).no_slash⟩
  rw [absolute_eq_intercalate nonempty]
  exact List.splitOn_intercalate '/' plain (List.cons_ne_nil _ _)

theorem absolute_inj (namesFront : ∀ name ∈ front, IsName name)
    (names : ∀ name ∈ segments, IsName name) :
    absolute front = absolute segments ↔ front = segments := by
  constructor
  · intro same
    rw [← place_absolute namesFront, same, place_absolute names]
  · exact congrArg absolute

/-- What is written for a place goes on behind what is written for another one
only if the names do. -/
theorem exists_append_of_absolute {rest : List Char} (nonempty : front ≠ [])
    (namesFront : ∀ name ∈ front, IsName name) (names : ∀ name ∈ segments, IsName name)
    (same : absolute front ++ '/' :: rest = absolute segments) :
    ∃ others, others ≠ [] ∧ segments = front ++ others := by
  have more : segments ≠ [] := by
    rintro rfl
    have lengths := congrArg List.length same
    have root : absolute [] = ['/'] := rfl
    rw [root, absolute, List.length_append, List.length_cons, List.length_cons,
      List.length_singleton] at lengths
    omega
  have pieces := congrArg (List.splitOn '/') same
  rw [← Text.splitOn_eq, Text.splitOn_append, Text.splitOn_eq, Text.splitOn_eq,
    splitOn_absolute nonempty namesFront, splitOn_absolute more names] at pieces
  exact ⟨rest.splitOn '/', List.splitOnP_ne_nil _ _, (List.cons.inj pieces).2.symm⟩

end Names

/-! ## Tidy paths -/

/-- The segments that are written in a path.  Before the slash of the root there
is none. -/
def writtenSegments (path : List Char) : List (List Char) :=
  (if path.head? = some '/' then path.tail else path).splitOn '/'

/-- A path that is the root, or that has names for segments and no slash at its
end. -/
def IsTidy (path : List Char) : Prop :=
  path = ['/']
    ∨ (∀ segment ∈ writtenSegments path, IsName segment) ∧ path.getLast? ≠ some '/'

/-- A slash at the end leads to a segment that is no name. -/
theorem getLast?_of_names {path : List Char}
    (names : ∀ segment ∈ path.splitOn '/', IsName segment) : path.getLast? ≠ some '/' := by
  intro ends
  rcases List.getLast?_eq_some_iff.mp ends with ⟨front, rfl⟩
  rw [← Text.splitOn_eq, Text.splitOn_append] at names
  exact (names [] (List.mem_append_right _ List.mem_cons_self)).ne_nil rfl

section Tidy

variable {segments : List (List Char)}

theorem isTidy_intercalate (nonempty : segments ≠ []) (names : ∀ name ∈ segments, IsName name) :
    IsTidy (List.intercalate ['/'] segments) := by
  have pieces := splitOn_intercalate_names nonempty names
  have unrooted : (List.intercalate ['/'] segments).head? ≠ some '/' := by
    intro rooted
    rcases List.head?_eq_some_iff.mp rooted with ⟨rest, shape⟩
    rw [shape, ← Text.splitOn_eq, Text.splitOn_cons, if_pos rfl] at pieces
    exact (names [] (pieces ▸ List.mem_cons_self)).ne_nil rfl
  right
  rw [writtenSegments, if_neg unrooted, pieces]
  exact ⟨names, getLast?_of_names (pieces.symm ▸ names)⟩

theorem getLast?_absolute (nonempty : segments ≠ []) (names : ∀ name ∈ segments, IsName name) :
    (absolute segments).getLast? ≠ some '/' := by
  have pieces := splitOn_intercalate_names nonempty names
  have visible : List.intercalate ['/'] segments ≠ [] := by
    intro empty
    rw [empty] at pieces
    exact (names [] (pieces ▸ List.mem_cons_self)).ne_nil rfl
  rw [absolute, List.getLast?_cons_of_ne_nil visible]
  exact getLast?_of_names (pieces.symm ▸ names)

theorem isTidy_absolute (names : ∀ name ∈ segments, IsName name) : IsTidy (absolute segments) := by
  by_cases root : segments = []
  · exact .inl (congrArg absolute root)
  · have rooted : (absolute segments).head? = some '/' := rfl
    right
    rw [writtenSegments, if_pos rooted, absolute, List.tail_cons,
      splitOn_intercalate_names root names]
    exact ⟨names, getLast?_absolute root names⟩

end Tidy

/-! ## Places below the home directory -/

section Home

variable {home segments rest : List (List Char)}

theorem trimSlashes_absolute (nonempty : home ≠ []) (names : ∀ name ∈ home, IsName name) :
    trimSlashes (absolute home) = absolute home := by
  have visible := getLast?_absolute nonempty names
  apply List.rdropWhile_eq_self_iff.mpr
  intro written slash
  rw [List.getLast?_eq_some_getLast written] at visible
  exact visible (congrArg some (of_decide_eq_true slash))

/-- Everything is below the root. -/
theorem write_root (segments : List (List Char)) :
    write (absolute []) segments = '~' :: absolute segments := rfl

variable (namesHome : ∀ name ∈ home, IsName name)
include namesHome

theorem write_home (nonempty : home ≠ []) : write (absolute home) home = ['~'] := by
  rw [write_eq_tilde_iff]
  exact trimSlashes_absolute nonempty namesHome

theorem write_below (more : rest ≠ []) :
    write (absolute home) (home ++ rest) = '~' :: absolute rest := by
  by_cases root : home = []
  · subst root
    exact write_root rest
  · have below : absolute home ++ absolute rest = absolute (home ++ rest) :=
      (absolute_append root more).symm
    have different : absolute (home ++ rest) ≠ absolute home := by
      intro same
      rw [← below] at same
      have nothing := List.append_right_eq_self.mp same
      cases nothing
    simp only [write, abbreviate, trimSlashes_absolute root namesHome, if_neg different]
    rw [List.isPrefixOf?_eq_some_iff_append_eq.mpr below]
    rfl

theorem write_elsewhere (names : ∀ name ∈ segments, IsName name) (outside : ¬home <+: segments) :
    write (absolute home) segments = absolute segments := by
  have nonempty : home ≠ [] := by
    rintro rfl
    exact outside List.nil_prefix
  have different : absolute segments ≠ absolute home := by
    intro same
    rw [absolute_inj names namesHome] at same
    exact outside (same ▸ List.prefix_refl segments)
  simp only [write, abbreviate, trimSlashes_absolute nonempty namesHome, if_neg different]
  split
  · rename_i rest found
    rw [List.isPrefixOf?_eq_some_iff_append_eq] at found
    split
    · rename_i slash
      rcases List.head?_eq_some_iff.mp slash with ⟨behind, rfl⟩
      rcases exists_append_of_absolute nonempty namesHome names found with ⟨others, _, shape⟩
      exact absurd ⟨others, shape.symm⟩ outside
    · rfl
  · rfl

/-- A place is the home directory, below it, or elsewhere. -/
theorem isTidy_write (names : ∀ name ∈ segments, IsName name)
    (apart : ¬(home = [] ∧ segments = [])) : IsTidy (write (absolute home) segments) := by
  have isTilde : IsName ['~'] := ⟨by decide, by decide, by decide, by decide⟩
  by_cases inside : home <+: segments
  · rcases inside with ⟨rest, rfl⟩
    by_cases here : rest = []
    · rw [here, List.append_nil] at apart ⊢
      rw [write_home namesHome fun root => apart ⟨root, root⟩]
      exact isTidy_intercalate (List.cons_ne_nil _ []) (List.forall_mem_singleton.mpr isTilde)
    · have spelled : List.intercalate ['/'] (['~'] :: rest) = '~' :: absolute rest :=
        intercalate_cons here
      rw [write_below namesHome here, ← spelled]
      apply isTidy_intercalate (List.cons_ne_nil _ _)
      exact List.forall_mem_cons.mpr
        ⟨isTilde, fun name member => names name (List.mem_append_right _ member)⟩
  · rw [write_elsewhere namesHome names inside]
    exact isTidy_absolute names

end Home

theorem names_destination (workingDirectory home target : String) :
    ∀ name ∈ destination workingDirectory home target, IsName name := by
  rw [← place_join]
  exact names_place _

/-- With a home directory that is written as a place, a resolved path is `~` for
the home directory, goes on from `~` with the names below it, and goes from the
root through all names elsewhere.  In each case it is tidy.  The exception is the
root as the home directory, which is written with a slash too many. -/
theorem resolve_tidy {home : String} {names : List (List Char)}
    (proper : ∀ name ∈ names, IsName name) (written : home.toList = absolute names)
    (workingDirectory target : String) :
    let reached := destination workingDirectory home target
    let path := (resolve workingDirectory home target).toList
    (∀ name ∈ reached, IsName name)
      ∧ (IsTidy path ↔ ¬(names = [] ∧ reached = []))
      ∧ (names = [] -> reached = [] -> path = ['~', '/'])
      ∧ (¬(names = [] ∧ reached = []) ->
        (reached = names -> path = ['~'])
          ∧ (∀ rest, rest ≠ [] -> reached = names ++ rest ->
              path = '~' :: '/' :: List.intercalate ['/'] rest)
          ∧ (¬names <+: reached -> path = '/' :: List.intercalate ['/'] reached)) := by
  intro reached path
  have properReached : ∀ name ∈ reached, IsName name := names_destination _ _ _
  have path_eq : path = write (absolute names) reached := by
    rw [← written]
    exact (toList_resolve workingDirectory home target).trans
      (congrArg (write home.toList) (place_join workingDirectory home target))
  have atRoot : names = [] -> reached = [] -> path = ['~', '/'] := by
    intro root here
    rw [path_eq, root, here]
    rfl
  refine ⟨properReached, ⟨?_, ?_⟩, atRoot, ?_⟩
  · rintro tidy ⟨root, here⟩
    rw [atRoot root here] at tidy
    rcases tidy with isRoot | ⟨_, ends⟩
    · cases isRoot
    · exact ends rfl
  · intro apart
    rw [path_eq]
    exact isTidy_write proper properReached apart
  · intro apart
    rw [path_eq]
    refine ⟨?_, ?_, ?_⟩
    · intro here
      rw [here] at apart ⊢
      exact write_home proper fun root => apart ⟨root, root⟩
    · intro rest more below
      rw [below]
      exact write_below proper more
    · exact write_elsewhere proper properReached

theorem resolve_tidy_cousin :
    let home := "/home/user"
    let names := ["home".toList, "user".toList]
    (∀ name ∈ names, IsName name) ∧ home.toList = absolute names
      ∧ resolve "~/docs" home "../.././user2/" = "/home/user2"
      ∧ destination "~/docs" home "../.././user2/" = ["home".toList, "user2".toList]
      ∧ IsTidy (resolve "~/docs" home "../.././user2/").toList := by
  intro home names
  have proper : ∀ name ∈ names, IsName name := by
    intro name member
    rcases List.mem_cons.mp member with rfl | member
    · exact ⟨by decide, by decide, by decide, by decide⟩
    · rw [List.mem_singleton.mp member]
      exact ⟨by decide, by decide, by decide, by decide⟩
  have written : home.toList = absolute names := by decide
  have reached : destination "~/docs" home "../.././user2/" = ["home".toList, "user2".toList] := by
    decide
  rcases resolve_tidy proper written "~/docs" "../.././user2/" with ⟨_, tidy, _, shape⟩
  have apart : ¬(names = [] ∧ destination "~/docs" home "../.././user2/" = []) := by
    rw [reached]
    decide
  refine ⟨proper, written, ?_, reached, tidy.mpr apart⟩
  apply String.toList_inj.mp
  rw [(shape apart).2.2 (by rw [reached]; decide), reached]
  decide

/-- Without a home directory of its own, a terminal that goes to the root is at
home, but its working directory is not written as `~`. -/
theorem resolve_root_untidy :
    let terminal := { Terminal.ofSettings {} with home? := none }
    terminal.home = "/" ∧ terminal.home.toList = absolute []
      ∧ destination terminal.workingDirectory terminal.home "/" = []
      ∧ (terminal.changeDirectory (some "/")).workingDirectory = "~/" := by
  decide

end Path
end LineShell
