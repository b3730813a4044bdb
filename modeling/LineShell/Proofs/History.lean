import Mathlib.Data.Set.Card
import LineShell.Proofs.Regularity

namespace LineShell
namespace Bindings

/-!
# Variables as a record of what was written

Variables are only ever written one by one, or removed all at once.  What is
there after a history of such writes can be told from the history alone: a name
is there if the last write that concerned it gave it a value other than the
empty text, and the names stand in the order in which they came into being.

A name that is removed and written again comes into being again, so its place
is not that of its first write.  The moment that counts is the one since which
it has been there throughout.
-/

inductive Write where
  | set (name : String) (value : Value)
  | clear

namespace Write

/-- Whether a write decides about a name.  Removing all variables decides about
every name. -/
def concerns (name : String) : Write -> Bool
  | set other _ => other = name
  | clear => true

def value? : Write -> Option Value
  | set _ value => some value
  | clear => none

end Write

def write (bindings : Bindings) : Write -> Bindings
  | .set name value => bindings.set name value
  | .clear => .empty

def replay (history : List Write) : Bindings :=
  history.foldl write .empty

/-- The names of the variables, the oldest first. -/
def names (bindings : Bindings) : List String :=
  bindings.entries.map Prod.fst

/-! ## What a history says -/

/-- The value that was last written to a name since all variables were removed. -/
def last? (history : List Write) (name : String) : Option Value :=
  (history.reverse.find? (Write.concerns name)).bind Write.value?

/-- Whether a name has a value after a history of writes. -/
def isBound (history : List Write) (name : String) : Bool :=
  (last? history name).any fun value => !value.isUnset

/-- The name came into being with the write at the moment, and has been there
since. -/
structure Born (history : List Write) (name : String) (moment : Nat) : Prop where
  written : ∃ value, history[moment]? = some (.set name value) ∧ value.isUnset = false
  absent : isBound (history.take moment) name = false
  throughout : ∀ later, moment < later -> later ≤ history.length ->
    isBound (history.take later) name = true

/-- One name came into being before the other. -/
def Older (history : List Write) (name other : String) : Prop :=
  ∃ moment later, Born history name moment ∧ Born history other later ∧ moment < later

variable {history : List Write} {name other : String}

theorem last?_concat (history : List Write) (write : Write) (name : String) :
    last? (history ++ [write]) name
      = if write.concerns name then write.value? else last? history name := by
  rw [last?, List.reverse_append, List.reverse_singleton, List.singleton_append, List.find?_cons]
  cases write.concerns name with
  | true => rfl
  | false => rfl

/-- A write that does not concern a name leaves it as it is. -/
theorem isBound_concat_of_other {write : Write} (other : write.concerns name = false) :
    isBound (history ++ [write]) name = isBound history name := by
  rw [isBound, last?_concat, other]
  rfl

theorem isBound_concat_set (history : List Write) (name other : String) (value : Value) :
    isBound (history ++ [.set name value]) other
      = if other = name then !value.isUnset else isBound history other := by
  by_cases same : other = name
  · subst same
    rw [isBound, last?_concat, if_pos rfl, if_pos (by simp [Write.concerns])]
    rfl
  · rw [if_neg same, isBound_concat_of_other (by simp [Write.concerns, Ne.symm same])]

theorem isBound_concat_clear (history : List Write) (name : String) :
    isBound (history ++ [.clear]) name = false := by
  rw [isBound, last?_concat]
  rfl

namespace Born

variable {moment later : Nat}

theorem lt_length (born : Born history name moment) : moment < history.length := by
  rcases born.written with ⟨value, there, _⟩
  exact (List.getElem?_eq_some_iff.mp there).1

theorem isBound (born : Born history name moment) : isBound history name = true := by
  have now := born.throughout history.length born.lt_length (Nat.le_refl _)
  rwa [List.take_length] at now

/-- There is only one such moment: at a later one the name was there already. -/
theorem unique (born : Born history name moment) (again : Born history name later) :
    moment = later := by
  rcases Nat.lt_trichotomy moment later with before | same | behind
  · have there := born.throughout later before (Nat.le_of_lt again.lt_length)
    rw [again.absent] at there
    cases there
  · exact same
  · have there := again.throughout moment behind (Nat.le_of_lt born.lt_length)
    rw [born.absent] at there
    cases there

/-- A write after which the name is still there does not change the moment. -/
theorem concat (born : Born history name moment) {write : Write}
    (still : Bindings.isBound (history ++ [write]) name = true) :
    Born (history ++ [write]) name moment where
  written := by
    rw [List.getElem?_append_left born.lt_length]
    exact born.written
  absent := by
    rw [List.take_append_of_le_length (Nat.le_of_lt born.lt_length)]
    exact born.absent
  throughout := by
    intro later before within
    by_cases inside : later ≤ history.length
    · rw [List.take_append_of_le_length inside]
      exact born.throughout later before inside
    · rw [List.take_of_length_le]
      · exact still
      · rw [List.length_append, List.length_singleton]
        omega

/-- A name that was not there comes into being with its next value. -/
theorem of_set {value : Value} (absent : Bindings.isBound history name = false)
    (kept : value.isUnset = false) :
    Born (history ++ [.set name value]) name history.length where
  written := ⟨value, by rw [List.getElem?_concat_length], kept⟩
  absent := by rwa [List.take_left]
  throughout := by
    intro later before within
    rw [List.take_of_length_le]
    · rw [isBound_concat_set, if_pos rfl, kept]
      rfl
    · rw [List.length_append, List.length_singleton]
      omega

end Born

/-- Names that are still there keep their order. -/
theorem Older.concat (older : Older history name other) {write : Write}
    (still : isBound (history ++ [write]) name = true)
    (stillOther : isBound (history ++ [write]) other = true) :
    Older (history ++ [write]) name other := by
  rcases older with ⟨moment, later, born, bornOther, before⟩
  exact ⟨moment, later, born.concat still, bornOther.concat stillOther, before⟩

/-! ## What is there -/

theorem replay_concat (history : List Write) (write : Write) :
    replay (history ++ [write]) = (replay history).write write := by
  rw [replay, replay, List.foldl_append]
  rfl

theorem replay_proper (history : List Write) : (replay history).Proper := by
  induction history using List.reverseRecOn with
  | nil => exact proper_empty
  | append_singleton history write ih =>
      rw [replay_concat]
      cases write with
      | set name value => exact ih.set name value
      | clear => exact proper_empty

theorem isUnset_iff (value : Value) : value.isUnset = true ↔ value = .text "" := by
  cases value <;> simp [Value.isUnset]

theorem lookup_set (bindings : Bindings) (name other : String) (value : Value) :
    (bindings.set name value).entries.lookup other
      = if other = name then some value |>.filter (!·.isUnset)
        else bindings.entries.lookup other := by
  rw [set]
  by_cases unset : value.isUnset = true
  · rw [if_pos unset, lookup_filter_ne, Option.filter_some, unset]
    rfl
  · rw [if_neg unset, lookup_put, Option.filter_some]
    simp only [unset, Bool.not_false, if_true]

/-- What is found under a name is the value that was last written to it, unless
that is the empty text. -/
theorem lookup_replay (history : List Write) (name : String) :
    (replay history).entries.lookup name = (last? history name).filter (!·.isUnset) := by
  induction history using List.reverseRecOn with
  | nil => rfl
  | append_singleton history write ih =>
      rw [replay_concat, last?_concat]
      cases write with
      | clear => rfl
      | set other value =>
          rw [write, lookup_set, ih]
          by_cases same : name = other
          · subst same
            simp [Write.concerns, Write.value?]
          · simp [Write.concerns, same, Ne.symm same]

theorem contains_replay (history : List Write) (name : String) :
    (replay history).contains name = isBound history name := by
  rw [contains, lookup_replay, isBound]
  cases last? history name with
  | none => rfl
  | some value => cases unset : value.isUnset <;> simp [unset]

theorem get_replay (history : List Write) (name : String) :
    (replay history).get name = (last? history name).getD .empty := by
  rw [get, lookup_replay]
  cases last? history name with
  | none => rfl
  | some value =>
      rw [Option.filter_some]
      cases unset : value.isUnset with
      | true =>
          rw [(isUnset_iff value).mp unset]
          rfl
      | false => rfl

/-- What is found under a name is what is listed with it. -/
theorem lookup_eq_some_iff {bindings : Bindings} (proper : bindings.Proper) (name : String)
    (value : Value) :
    bindings.entries.lookup name = some value ↔ (name, value) ∈ bindings.entries := by
  have nodup := proper.names_nodup
  generalize bindings.entries = entries at nodup
  induction entries with
  | nil => simp
  | cons entry entries ih =>
      rw [List.map_cons, List.nodup_cons] at nodup
      rcases entry with ⟨first, held⟩
      rw [List.lookup_cons, List.mem_cons, Prod.mk.injEq]
      by_cases same : name = first
      · subst same
        have once : (name, value) ∉ entries := by
          intro member
          exact nodup.1 (List.mem_map.mpr ⟨_, member, rfl⟩)
        simp [once, eq_comm]
      · have differ : (name == first) = false := beq_eq_false_iff_ne.mpr same
        simp [differ, same, ih nodup.2]

theorem mem_names_iff (history : List Write) (name : String) :
    name ∈ (replay history).names ↔ isBound history name = true := by
  rw [← contains_replay, contains, Option.isSome_iff_exists, names, List.mem_map]
  constructor
  · rintro ⟨⟨_, value⟩, member, rfl⟩
    exact ⟨value, (lookup_eq_some_iff (replay_proper history) _ value).mpr member⟩
  · rintro ⟨value, found⟩
    exact ⟨(name, value), (lookup_eq_some_iff (replay_proper history) name value).mp found, rfl⟩

/-! ## In which order -/

theorem map_fst_put (name : String) (value : Value) (entries : List (String × Value)) :
    (put name value entries).map Prod.fst
      = if name ∈ entries.map Prod.fst then entries.map Prod.fst
        else entries.map Prod.fst ++ [name] := by
  induction entries with
  | nil => rfl
  | cons entry entries ih =>
      rw [put]
      by_cases same : entry.1 = name
      · simp [same]
      · simp only [if_neg same, List.map_cons, ih, List.mem_cons, Ne.symm same, false_or]
        split
        · rfl
        · rfl

/-- A name that is there keeps its place, and a new one comes last. -/
theorem names_set (bindings : Bindings) (name : String) (value : Value) :
    (bindings.set name value).names
      = if value.isUnset then bindings.names.filter (· ≠ name)
        else if name ∈ bindings.names then bindings.names else bindings.names ++ [name] := by
  rw [set]
  split
  · rw [names, names, List.filter_map]
    rfl
  · exact map_fst_put name value bindings.entries

/-- Writing one name leaves the others with their values in their order. -/
theorem filter_ne_set (bindings : Bindings) (name : String) (value : Value) :
    (bindings.set name value).entries.filter (fun entry => entry.1 ≠ name)
      = bindings.entries.filter fun entry => entry.1 ≠ name := by
  rw [set]
  split
  · rw [List.filter_filter]
    simp only [Bool.and_self]
  · simp only
    induction bindings.entries with
    | nil => simp [put]
    | cons entry entries ih =>
        rw [put]
        by_cases same : entry.1 = name
        · simp [same]
        · rw [if_neg same, List.filter_cons, List.filter_cons, ih]

/-- Every name that is there came into being at some moment. -/
theorem exists_born (bound : isBound history name = true) : ∃ moment, Born history name moment := by
  induction history using List.reverseRecOn with
  | nil => cases bound
  | append_singleton history write ih =>
      by_cases before : isBound history name = true
      · rcases ih before with ⟨moment, born⟩
        exact ⟨moment, born.concat bound⟩
      · rw [Bool.not_eq_true] at before
        cases write with
        | clear =>
            rw [isBound_concat_clear] at bound
            cases bound
        | set other value =>
            rw [isBound_concat_set] at bound
            split at bound
            · rename_i same
              subst same
              exact ⟨_, Born.of_set before (by simpa using bound)⟩
            · rw [before] at bound
              cases bound

theorem pairwise_older (history : List Write) :
    (replay history).names.Pairwise (Older history) := by
  induction history using List.reverseRecOn with
  | nil => exact .nil
  | append_singleton history write ih =>
      -- Names that are there before and after the write keep their order.
      have kept : ∀ remaining : List String, remaining.Sublist (replay history).names ->
          (∀ name ∈ remaining, isBound (history ++ [write]) name = true) ->
          remaining.Pairwise (Older (history ++ [write])) := by
        intro remaining sublist still
        refine (ih.sublist sublist).imp_of_mem ?_
        intro name other member memberOther older
        exact older.concat (still name member) (still other memberOther)
      have still : ∀ name ∈ (replay (history ++ [write])).names,
          isBound (history ++ [write]) name = true :=
        fun name => (mem_names_iff _ name).mp
      rw [replay_concat] at still ⊢
      cases write with
      | clear => exact .nil
      | set name value =>
          rw [write, names_set] at still ⊢
          split at still
          · rename_i unset
            rw [if_pos unset]
            exact kept _ List.filter_sublist still
          · rename_i set
            rw [if_neg set]
            split at still
            · rename_i there
              rw [if_pos there]
              exact kept _ (List.Sublist.refl _) still
            · rename_i absent
              rw [if_neg absent, List.pairwise_append]
              refine ⟨kept _ (List.Sublist.refl _) ?_, List.pairwise_singleton .., ?_⟩
              · intro other member
                exact still other (List.mem_append_left _ member)
              · intro other member last isLast
                rw [List.mem_singleton.mp isLast]
                rcases exists_born ((mem_names_iff history other).mp member) with ⟨moment, born⟩
                rw [mem_names_iff, Bool.not_eq_true] at absent
                rw [Bool.not_eq_true] at set
                exact ⟨moment, history.length,
                  born.concat (still other (List.mem_append_left _ member)),
                  .of_set absent set, born.lt_length⟩

theorem size_replay (history : List Write) :
    (replay history).size = {name | isBound history name = true}.ncard := by
  have same : {name | isBound history name = true}
      = ((replay history).names.toFinset : Set String) := by
    ext name
    rw [Set.mem_ofPred_eq, List.coe_toFinset, Set.mem_ofPred_eq, mem_names_iff]
  rw [same, Set.ncard_coe_finset]
  have counted := List.toFinset_card_of_nodup (replay_proper history).names_nodup
  rw [List.length_map] at counted
  exact counted.symm

/-- After every history of writes the variables are those names whose last write
since all were removed gave them a value, each once and with that value, in the
order in which they came into being.  Reading gives the last value that was
written.  Writing a name once more is read back and leaves the others with
their values in their order. -/
theorem replay_refines_history (history : List Write) :
    let bindings := replay history
    (∀ name value, (name, value) ∈ bindings.entries
        ↔ last? history name = some value ∧ value ≠ .text "")
      ∧ bindings.names.Nodup
      ∧ (∀ name, name ∈ bindings.names ↔ ∃! moment, Born history name moment)
      ∧ bindings.names.Pairwise (Older history)
      ∧ bindings.size = {name | isBound history name = true}.ncard
      ∧ (bindings.isEmpty = true ↔ ∀ name, isBound history name = false)
      ∧ (∀ name, bindings.contains name = isBound history name)
      ∧ (∀ name, bindings.get name = (last? history name).getD (.text ""))
      ∧ ∀ name value,
          let after := replay (history ++ [.set name value])
          (∀ other, after.get other = if other = name then value else bindings.get other)
            ∧ after.entries.filter (fun entry => entry.1 ≠ name)
                = bindings.entries.filter fun entry => entry.1 ≠ name := by
  intro bindings
  have proper := replay_proper history
  refine ⟨?_, proper.names_nodup, ?_, pairwise_older history, size_replay history, ?_,
    contains_replay history, get_replay history, ?_⟩
  · intro name value
    rw [← lookup_eq_some_iff proper, lookup_replay, Option.filter_eq_some_iff, Ne, ← isUnset_iff,
      Bool.not_eq_true', Bool.not_eq_true]
  · intro name
    rw [mem_names_iff]
    constructor
    · intro bound
      rcases exists_born bound with ⟨moment, born⟩
      exact ⟨moment, born, fun _ again => again.unique born⟩
    · rintro ⟨moment, born, _⟩
      exact born.isBound
  · have empty : bindings.isEmpty = true ↔ ∀ name, name ∉ bindings.names := by
      rw [isEmpty, List.isEmpty_iff, ← List.eq_nil_iff_forall_not_mem, names, List.map_eq_nil_iff]
    simp only [empty, bindings, mem_names_iff, Bool.not_eq_true]
  · intro name value after
    have written : after = bindings.set name value := replay_concat ..
    rw [written]
    exact ⟨fun other => get_set bindings name other value, filter_ne_set bindings name value⟩

-- Overwriting keeps the place of a name, and removing it gives it up.
example :
    (replay [.set "a" (.text "1"), .set "b" (.text "2"), .set "a" (.text "3")]).names = ["a", "b"]
      ∧ (replay [.set "a" (.text "1"), .set "b" (.text "2"), .set "a" (.text ""),
          .set "a" (.text "3")]).names = ["b", "a"] := by
  decide

end Bindings
end LineShell
