import Quorum.Proofs.World

/-!
Histories of a cluster: what is stored at each time, who leads, and how either comes about.

A fact about the past is a fact about some earlier time of the same history, so no record of the
past is kept in the world itself.
-/

namespace Quorum

open LawfulStore

variable {σ μ : Type} [LogStore σ] [BallotStore σ] [Reopen σ] [LawfulStore σ] [Machine μ]

/-- A cluster with these members before its first start: nothing is stored, nothing was sent. -/
structure World.IsNew (members : List NodeId) (w : World σ μ) : Prop where
  polls : w.polls = []
  rounds : w.rounds = []
  hosts : ∀ a h, Table.find? a w.cluster.hosts = some h → ∃ c store j, h = .down c store j ∧
    c.self = a ∧ c.members = members ∧ contents store = {}

/-- Everything that happens in a cluster, from before its first start on. -/
structure History (σ μ : Type) [LogStore σ] [BallotStore σ] [Reopen σ] [LawfulStore σ]
    [Machine μ] where
  members : List NodeId
  start : World σ μ
  isNew : start.IsNew members
  acts : ℕ → Action μ

/-- Members in memory that were never started. -/
def World.blank (ids : List NodeId) : World Memory Kv where
  cluster := { hosts := ids.map fun id => (id, .down ⟨id, ids, {}⟩ {} ⟨⟨[]⟩, []⟩) }

lemma World.blank_isNew (ids : List NodeId) : (blank ids).IsNew ids where
  polls := rfl
  rounds := rfl
  hosts := by
    have key : ∀ (js : List NodeId) a h, Table.find? a (js.map fun id =>
        ((id, .down ⟨id, ids, {}⟩ {} ⟨⟨[]⟩, []⟩) : NodeId × Host Memory (Journal Kv))) = some h →
        h = .down ⟨a, ids, {}⟩ {} ⟨⟨[]⟩, []⟩ := by
      intro js
      induction js with
      | nil => intro a h hh; cases hh
      | cons j js ih =>
        intro a h hh
        rw [List.map_cons, Table.find?] at hh
        split at hh
        · rename_i hj
          rw [← Option.some.inj hh, hj]
        · exact ih a h hh
    intro a h hh
    exact ⟨_, _, _, key ids a h hh, rfl, rfl, rfl⟩

namespace History

/-- What comes of a list of steps. After them nothing more happens. -/
def play (ids : List NodeId) (script : List (Action Kv)) : History Memory Kv where
  members := ids
  start := .blank ids
  isNew := World.blank_isNew ids
  acts k := script.getD k (.send 0 0)

lemma play_acts (ids : List NodeId) (script : List (Action Kv)) (k : ℕ) :
    (play ids script).acts k = script[k]?.getD (.send 0 0) :=
  List.getD_eq_getElem?_getD

/-- The world after so many steps. -/
def world (x : History σ μ) : ℕ → World σ μ
  | 0 => x.start
  | k + 1 => (world x k).perform (x.acts k)

variable (x : History σ μ)

def host? (k : ℕ) (a : NodeId) : Option (Host σ (Journal μ)) :=
  Table.find? a (x.world k).cluster.hosts

/-- The member at that time, if it runs. -/
def node? (k : ℕ) (a : NodeId) : Option (Node σ (Journal μ)) := (x.world k).cluster.node? a

/-- What a member has stored. -/
def stored (k : ℕ) (a : NodeId) : Memory :=
  match x.host? k a with
  | some h => contents h.store
  | none => {}

def log (k : ℕ) (a : NodeId) : List Entry := (x.stored k a).records

def ballot (k : ℕ) (a : NodeId) : Ballot := (x.stored k a).ballot

def Leads (k : ℕ) (a : NodeId) (t : Term) : Prop :=
  ∃ n, x.node? k a = some n ∧ n.leaderTerm = some t

/-- In the first `k` steps no election begins in the last term, behind which the count of terms
starts over. -/
def CountsTo (k : ℕ) : Prop :=
  ∀ i < k, ∀ a n, x.acts i = .stand a → x.node? i a = some n → n.startElection.1 ≠ none →
    ¬ n.term.IsLast

/-- It stands for election in that term. -/
def Runs (k : ℕ) (a : NodeId) (t : Term) : Prop :=
  ∃ n, x.node? k a = some n ∧ n.role = .candidate ∧ n.term = t

/-- The step in which a candidate with a majority becomes the leader of its term. -/
structure TakesOffice (k : ℕ) (a : NodeId) (t : Term) (n : Node σ (Journal μ)) (tl : Tally) :
    Prop where
  node : x.node? k a = some n
  tally : n.tally = some tl
  majority : n.config.majority ≤ tl.votes
  role : n.role = .candidate
  term : n.term = t
  request : tl.request.term = t
  next : x.node? (k + 1) a = some (n.takeOffice { n.standing with role := .leader })

variable {x} {k : ℕ} {a : NodeId} {t : Term} {n : Node σ (Journal μ)}

lemma node?_eq_some : x.node? k a = some n ↔ x.host? k a = some (.up n) :=
  Cluster.node?_eq_some

/-! ### One step -/

lemma fit (k : ℕ) {a : NodeId} {h : Host σ (Journal μ)} (hh : x.host? k a = some h) :
    h.Fit x.members a := by
  induction k generalizing a h with
  | zero =>
    obtain ⟨c, store, j, rfl, h1, h2, h3⟩ := x.isNew.hosts a h hh
    refine ⟨h1, h2, ?_, fun n hn => by cases hn⟩
    show Numbered (contents store).records
    rw [h3]
    exact Numbered.nil
  | succ k ih =>
    rcases (x.world k).perform_cases (x.acts k) a with hs | ⟨g, g', hg, hg', hd⟩
    · exact ih (hs.symm.trans hh)
    · obtain rfl : g' = h := Option.some.inj (hg'.symm.trans hh)
      exact (hd.turn (ih hg)).fit (ih hg)

/-- In a step a host stays as it is or makes one of the turns that a host can make. -/
lemma host_cases (x : History σ μ) (k : ℕ) (a : NodeId) :
    x.host? (k + 1) a = x.host? k a ∨
      ∃ h h', x.host? k a = some h ∧ x.host? (k + 1) a = some h' ∧
        World.Deed (x.world k) (x.acts k) a h h' ∧ h.Turn (x.acts k) a h' := by
  rcases (x.world k).perform_cases (x.acts k) a with hs | ⟨h, h', hh, hh', hd⟩
  · exact Or.inl hs
  · exact Or.inr ⟨h, h', hh, hh', hd, hd.turn (fit k hh)⟩

lemma fit_node (hn : x.node? k a = some n) :
    n.Fit ∧ n.config.self = a ∧ n.config.members = x.members ∧ x.members.Nodup ∧ a ∈ x.members := by
  have hf := fit k (node?_eq_some.mp hn)
  obtain ⟨h1, h2, h3⟩ := hf.up n rfl
  exact ⟨h1, hf.self, hf.members, h2, h3⟩

lemma stored_of_host {h : Host σ (Journal μ)} (hh : x.host? k a = some h) :
    x.stored k a = contents h.store := by
  rw [stored, hh]

/-- What a running member has stored is what it holds. -/
lemma stored_of_node (hn : x.node? k a = some n) :
    x.stored k a = ⟨n.log.entries, n.standing.ballot⟩ := by
  rw [stored_of_host (node?_eq_some.mp hn)]
  exact (fit_node hn).1.stored

lemma log_of_node (hn : x.node? k a = some n) : x.log k a = n.log.entries := by
  rw [log, stored_of_node hn]

lemma ballot_of_node (hn : x.node? k a = some n) : x.ballot k a = n.standing.ballot := by
  rw [ballot, stored_of_node hn]

lemma stored_congr {j : ℕ} (h : x.host? j a = x.host? k a) : x.stored j a = x.stored k a := by
  rw [stored, stored, h]

lemma node?_zero (x : History σ μ) (a : NodeId) : x.node? 0 a = none := by
  cases hn : x.node? 0 a with
  | none => rfl
  | some n =>
    obtain ⟨c, store, j, hd, -⟩ := x.isNew.hosts a _ (node?_eq_some.mp hn)
    cases hd

lemma log_zero (x : History σ μ) (a : NodeId) : x.log 0 a = [] := by
  rw [log, stored]
  split
  · rename_i h hh
    obtain ⟨c, store, j, rfl, -, -, hs⟩ := x.isNew.hosts a h hh
    exact congrArg Memory.records hs
  · rfl

lemma CountsTo.mono {j k : ℕ} (h : x.CountsTo k) (hjk : j ≤ k) : x.CountsTo j :=
  fun i hi => h i (hi.trans_le hjk)

lemma play_countsTo {ids : List NodeId} {script : List (Action Kv)}
    (h : ∀ k < script.length, ∀ a ∈ ids, ¬ ((play ids script).ballot k a).term.IsLast) :
    (play ids script).CountsTo k := by
  intro i _ a n hact hn _
  have hi : i < script.length := by
    by_contra hle
    rw [play_acts, List.getElem?_eq_none (Nat.le_of_not_lt hle)] at hact
    cases hact
  have hterm := h i hi a (fit_node hn).2.2.2.2
  rwa [ballot_of_node hn] at hterm

/-- Ballots only go forward, through every failure and restart. -/
lemma ballot_before {j k : ℕ} (hc : x.CountsTo k) (hjk : j ≤ k) (a : NodeId) :
    (x.ballot j a).Before (x.ballot k a) := by
  induction k, hjk using Nat.le_induction with
  | base => exact .refl _
  | succ k _ ih =>
    refine (ih (hc.mono (Nat.le_succ k))).trans ?_
    rcases x.host_cases k a with hs | ⟨h, h', hh, hh', -, ht⟩
    · rw [ballot, ballot, stored_congr hs]
      exact .refl _
    · rw [ballot, ballot, stored_of_host hh, stored_of_host hh']
      refine ht.before (fit k hh) fun n hact hn hs => ?_
      exact hc k (Nat.lt_succ_self k) a n hact (node?_eq_some.mpr (hn ▸ hh)) hs

lemma term_le {j k : ℕ} (hc : x.CountsTo k) (hjk : j ≤ k) (a : NodeId) :
    (x.ballot j a).term ≤ (x.ballot k a).term :=
  (ballot_before hc hjk a).term_le

/-! ### Roles -/

lemma Leads.term (h : x.Leads k a t) : (x.ballot k a).term = t := by
  obtain ⟨n, hn, hl⟩ := h
  rw [ballot_of_node hn]
  exact (Node.leaderTerm_eq_some.mp hl).2

lemma Runs.not_leads (h : x.Runs k a t) {u : Term} : ¬ x.Leads k a u := by
  rintro ⟨m, hm, hl⟩
  obtain ⟨n, hn, hr, -⟩ := h
  obtain rfl : m = n := Option.some.inj (hm.symm.trans hn)
  rw [(Node.leaderTerm_eq_some.mp hl).1] at hr
  cases hr

lemma leads_succ (h : x.Leads (k + 1) a t) :
    x.Leads k a t ∨ ∃ n tally, x.TakesOffice k a t n tally := by
  obtain ⟨m, hm, hl⟩ := h
  rcases x.host_cases k a with hs | ⟨g, g', hg, hg', -, ht⟩
  · exact Or.inl ⟨m, node?_eq_some.mpr (hs.symm.trans (node?_eq_some.mp hm)), hl⟩
  · obtain rfl : g' = .up m := Option.some.inj (hg'.symm.trans (node?_eq_some.mp hm))
    obtain ⟨hr, hterm⟩ := Node.leaderTerm_eq_some.mp hl
    cases ht with
    | starts => cases hr
    | goes n _ hn hgo =>
      subst hn
      obtain ⟨h1, h2⟩ := hgo.role (by rw [hr]; simp)
      refine Or.inl ⟨n, node?_eq_some.mpr hg, Node.leaderTerm_eq_some.mpr ?_⟩
      exact ⟨h1.symm.trans hr, h2.symm.trans hterm⟩
    | stands => cases hr
    | leads n tally hn ht hmaj hrole hreq =>
      subst hn
      have hnt : n.term = t := hterm
      exact Or.inr ⟨n, tally, node?_eq_some.mpr hg, ht, hmaj, hrole, hnt, hreq.symm.trans hnt, hm⟩

/-- A candidate has not led its term before. -/
lemma Runs.not_led (hc : x.CountsTo k) (h : x.Runs k a t) {j : ℕ} (hj : j ≤ k) :
    ¬ x.Leads j a t := by
  induction k with
  | zero =>
    obtain rfl := Nat.le_zero.mp hj
    exact h.not_leads
  | succ k ih =>
    have hck := hc.mono (Nat.le_succ k)
    rcases Nat.le_succ_iff.mp hj with hj | rfl
    · obtain ⟨m, hm, hr, hterm⟩ := h
      rcases x.host_cases k a with hs | ⟨g, g', hg, hg', -, ht⟩
      · exact ih hck ⟨m, node?_eq_some.mpr (hs.symm.trans (node?_eq_some.mp hm)), hr, hterm⟩ hj
      · obtain rfl : g' = .up m := Option.some.inj (hg'.symm.trans (node?_eq_some.mp hm))
        cases ht with
        | starts => cases hr
        | goes n _ hn hgo =>
          subst hn
          obtain ⟨h1, h2⟩ := hgo.role (by rw [hr]; simp)
          exact ih hck ⟨n, node?_eq_some.mpr hg, h1.symm.trans hr, h2.symm.trans hterm⟩ hj
        | stands n store' hact hn hs =>
          subst hn
          -- the term that it stands for is later than any before
          intro hl
          have hle := term_le hck hj a
          rw [hl.term, ballot_of_node (node?_eq_some.mpr hg)] at hle
          have hnext : n.term.next = t := hterm
          have hlast := hc k (Nat.lt_succ_self k) a n hact (node?_eq_some.mpr hg) (by rw [hs]; simp)
          exact absurd hle (Nat.not_le_of_lt (hnext ▸ Term.lt_next_iff.mpr hlast))
        | leads => cases hr
    · exact h.not_leads

/-- Every leadership of a term began once, and has lasted since. -/
lemma Leads.office (hc : x.CountsTo k) (h : x.Leads k a t) :
    ∃ j < k, ∃ n tally, x.TakesOffice j a t n tally ∧ (∀ i ≤ j, ¬ x.Leads i a t) ∧
      ∀ i, j < i → i ≤ k → x.Leads i a t := by
  induction k with
  | zero =>
    obtain ⟨n, hn, -⟩ := h
    rw [x.node?_zero a] at hn
    cases hn
  | succ k ih =>
    have hck := hc.mono (Nat.le_succ k)
    rcases leads_succ h with hl | ⟨n, tally, ho⟩
    · obtain ⟨j, hj, n, tally, ho, h1, h2⟩ := ih hck hl
      refine ⟨j, Nat.lt_succ_of_lt hj, n, tally, ho, h1, fun i hi hik => ?_⟩
      rcases Nat.le_succ_iff.mp hik with hik | rfl
      · exact h2 i hi hik
      · exact h
    · refine ⟨k, Nat.lt_succ_self k, n, tally, ho, fun i hi => ?_, fun i hi hik => ?_⟩
      · exact Runs.not_led hck ⟨n, ho.node, ho.role, ho.term⟩ hi
      · obtain rfl : i = k + 1 := Nat.le_antisymm hik hi
        exact h

end History

end Quorum
