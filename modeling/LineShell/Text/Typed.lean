import LineShell.Text.Basic
import LineShell.Text.Cluster.Basic

namespace LineShell
namespace Text

/-!
In a line that was typed, a backspace takes back the cluster before it.  The
width of each cluster is remembered in one byte, so of a cluster that is wider
only the remainder of its width is taken back.
-/

/-- The character that takes back what was typed before it. -/
def backspace : Char := '\x08'

/-- The number of widths that can be told apart. -/
def widthModulus : Nat := 256

/-- What is left of a line while it is typed: its characters, the last one
first, and the widths of the clusters that can be taken back. -/
structure Typed where
  kept : List Char := []
  widths : List Nat := []
  deriving DecidableEq, Repr

namespace Typed

/-- Removes bytes from the end of a text that is written with its last character
first; there is no text if that would cut a character in two. -/
def dropBytes? (count : Nat) (chars : List Char) : Option (List Char) :=
  if count = 0 then some chars
  else
    match chars with
    | [] => none
    | char :: rest => if char.utf8Size ≤ count then dropBytes? (count - char.utf8Size) rest else none

def add (typed : Typed) (cluster : List Char) : Typed :=
  { kept := cluster.reverse ++ typed.kept
    widths := byteSize cluster % widthModulus :: typed.widths }

/-- Takes back the last cluster, if there is one. -/
def takeBack? (typed : Typed) : Option Typed :=
  match typed.widths with
  | [] => some typed
  | width :: widths => (dropBytes? width typed.kept).map fun kept => { kept, widths }

/-- Takes in a cluster, or a backspace. -/
def step? (typed : Typed) (cluster : List Char) : Option Typed :=
  if cluster = [backspace] then typed.takeBack? else some (typed.add cluster)

/-- The line that is left after all backspaces.  A line without any is left as
it is. -/
def resolve? (line : List Char) : Option (List Char) :=
  if backspace ∈ line then
    ((Cluster.clusters line).foldlM step? {}).map fun typed => typed.kept.reverse
  else some line

theorem foldlM_step?_plain (typed : Typed) (clusters : List (List Char))
    (plain : ∀ cluster ∈ clusters, cluster ≠ [backspace]) :
    (clusters.foldlM step? typed).map (fun typed => typed.kept.reverse)
      = some (typed.kept.reverse ++ clusters.flatten) := by
  induction clusters generalizing typed with
  | nil => simp only [List.foldlM_nil, List.flatten_nil, List.append_nil, pure, Option.map_some]
  | cons cluster clusters ih =>
      have first : cluster ≠ [backspace] := plain cluster List.mem_cons_self
      have others : ∀ cluster ∈ clusters, cluster ≠ [backspace] := fun other member =>
        plain other (List.mem_cons_of_mem cluster member)
      simp only [List.foldlM_cons, step?, if_neg first, bind, Option.bind_some]
      rw [ih (typed.add cluster) others]
      simp only [add, List.reverse_append, List.reverse_reverse, List.flatten_cons,
        List.append_assoc]

/-- Lines with and without backspaces follow one rule. -/
theorem resolve?_eq (line : List Char) :
    resolve? line
      = ((Cluster.clusters line).foldlM step? {}).map fun typed => typed.kept.reverse := by
  rw [resolve?]
  split
  · rfl
  · rename_i absent
    rw [foldlM_step?_plain]
    · rw [List.reverse_nil, List.nil_append, Cluster.flatten_clusters]
    · intro cluster member equal
      have present : backspace ∈ (Cluster.clusters line).flatten :=
        List.mem_flatten.mpr ⟨cluster, member, equal ▸ List.mem_singleton_self backspace⟩
      exact absent (Cluster.flatten_clusters line ▸ present)

end Typed
end Text
end LineShell
