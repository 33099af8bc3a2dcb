/-!
The nouns of a replicated log: members, terms, positions, entries, and the ballot a member keeps.

Terms, positions and member ids are natural numbers. Where one is written to a file or read from
a document it has to fit a word of 64 bits, which is what `wordLimit` bounds.
-/

namespace Quorum

/-- The name of a cluster member. -/
abbrev NodeId := Nat

/-- Terms are numbered upward; each has at most one leader. -/
abbrev Term := Nat

/-- A position in the log. Entries start at 1; position 0 is the sentinel's. -/
abbrev Index := Nat

abbrev Bytes := List UInt8

/-- Every number of a file or a document is below this. -/
def wordLimit : Nat := Nat.pow 2 64

/-- The term after this one. Terms are counted in a word: behind the last one the count starts over,
unless the program is built to check its arithmetic, in which case it stops there. -/
def Term.next (t : Term) : Term := (t + 1) % wordLimit

/-- No term is counted after this one. -/
def Term.IsLast (t : Term) : Prop := wordLimit ≤ t + 1

instance (t : Term) : Decidable t.IsLast := inferInstanceAs (Decidable (wordLimit ≤ t + 1))

theorem Term.next_eq {t : Term} (h : ¬ t.IsLast) : t.next = t + 1 :=
  Nat.mod_eq_of_lt (Nat.lt_of_not_le h)

theorem Term.next_lt {t : Term} (h : t.IsLast) : t.next < t := by
  have hlt : t.next < wordLimit := Nat.mod_lt _ (by decide)
  have hle : t.next ≤ t := Nat.le_of_lt_succ (Nat.lt_of_lt_of_le hlt h)
  refine Nat.lt_of_le_of_ne hle fun heq => ?_
  have hnext : t + 1 = wordLimit := Nat.le_antisymm (heq ▸ hlt) h
  rw [next, hnext, Nat.mod_self] at heq
  exact absurd (heq ▸ hnext) (by decide)

/-- No term comes next to itself. -/
theorem Term.next_ne (t : Term) : t.next ≠ t := by
  by_cases h : t.IsLast
  · exact Nat.ne_of_lt (next_lt h)
  · rw [next_eq h]
    exact Nat.succ_ne_self t

/-- The next term is a later one, unless there is none. -/
theorem Term.lt_next_iff {t : Term} : t < t.next ↔ ¬ t.IsLast := by
  refine ⟨fun h hlast => Nat.lt_asymm h (next_lt hlast), fun h => ?_⟩
  rw [next_eq h]
  exact Nat.lt_succ_self t

/-- One command of the log, with the term that created it and the position it was created for. -/
structure Entry where
  term : Term
  index : Index
  payload : Bytes
deriving DecidableEq, Repr

/-- What stands at position 0 of every log. It is never sent and never applied. -/
def Entry.sentinel : Entry := ⟨0, 0, []⟩

/-- What a member must not forget: the term it is in and the vote it cast in that term. -/
structure Ballot where
  term : Term := 0
  vote : Option NodeId := none
deriving DecidableEq, Repr

/-- What a member does in its current term. -/
inductive Role where
  | follower
  | candidate
  | leader
deriving DecidableEq, Repr

namespace Role

def name : Role → String
  | follower => "Follower"
  | candidate => "Candidate"
  | leader => "Leader"

def all : List Role := [follower, candidate, leader]

def ofName? (s : String) : Option Role := all.find? fun r => r.name = s

end Role

end Quorum
