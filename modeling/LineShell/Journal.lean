namespace LineShell

/-!
The journal is what a session has to show.  Clearing it starts a new epoch, so
that a reader who remembers how far it got can tell that it has to start over.
-/

/-- How much an entry of the journal matters. -/
inductive Severity where
  | info
  | warning
  | error
  deriving DecidableEq, Repr

structure Entry where
  severity : Severity
  message : String
  deriving DecidableEq, Repr

/-- The entries since the journal was last cleared, and how often it was. -/
structure Journal where
  entries : Array Entry
  epoch : Nat
  deriving DecidableEq, Repr

namespace Journal

def empty : Journal :=
  { entries := #[], epoch := 0 }

def add (journal : Journal) (severity : Severity) (message : String) : Journal :=
  { journal with entries := journal.entries.push { severity, message } }

/-- Removes all entries and starts a new epoch. -/
def clear (journal : Journal) : Journal :=
  { entries := #[], epoch := journal.epoch + 1 }

def size (journal : Journal) : Nat :=
  journal.entries.size

/-- The entries after the first `cursor` ones. -/
def since (journal : Journal) (cursor : Nat) : List Entry :=
  (journal.entries.extract cursor journal.entries.size).toList

@[simp]
theorem size_add (journal : Journal) (severity : Severity) (message : String) :
    (journal.add severity message).size = journal.size + 1 := by
  simp only [add, size, Array.size_push]

theorem since_eq_drop (journal : Journal) (cursor : Nat) :
    journal.since cursor = journal.entries.toList.drop cursor := by
  rw [since, Array.toList_extract, List.extract_eq_take_drop]
  exact List.take_of_length_le (by simp only [List.length_drop, Array.length_toList, Nat.le_refl])

def messages (journal : Journal) : List String :=
  journal.entries.toList.map Entry.message

/-- The messages, each on a line of its own. -/
def render (journal : Journal) : String :=
  String.intercalate "\n" journal.messages

/-- The entries that a reader has not seen who stopped after `cursor` entries in
the given epoch. -/
def unseen (journal : Journal) (epoch cursor : Nat) : List Entry :=
  journal.since (if journal.epoch = epoch then cursor else 0)

end Journal
end LineShell
